import GenericMlCache.KeySoundness

/-!
# Maps told apart by their framing

The bytes under a checksum, read as the text they encode. A record frames its
value with a length, its key with nothing, so the text of several records is
also the text of one record with a long key. A map shares its bytes with no
other map only if it is empty, or holds one item whose key and value frame
nothing themselves.
-/

namespace GenericMlCache.FramedMaps

open PythonText LengthFraming CallIdentityKeys

/-- `_RECORD_SEP` as a code point of a text. -/
def recordSep : Fin 0x110000 := 0x1e

/-- The length of an encoded value, in decimal. -/
def lengthText (value : PyStr) : PyStr := pyStr (toString (value.flatMap encodeCodePoint).length)

/-- A value behind its length. -/
def framedValue (value : PyStr) : PyStr := lengthText value ++ fieldSep::value

/-- The record of an item, but for `_RECORD_SEP` at its end. -/
def itemText (e : PyStr × PyStr) : PyStr := e.1 ++ fieldSep::framedValue e.2

/-- The records of some items. -/
def recordsText (es : List (PyStr × PyStr)) : PyStr := es.flatMap fun e => itemText e ++ [recordSep]

/-- The text whose bytes `checksum_input_data` feeds to SHA-256. -/
def mapText (d : PyDict) : PyStr := recordsText d.sortedItems

/-- Every key and every value of a map encodes. -/
def Encodable (d : PyDict) : Prop := ∀ e∈d.items,encodable e.1=true ∧ encodable e.2=true

section Texts
variable {e : PyStr × PyStr} {es fs : List (PyStr × PyStr)} {d d' : PyDict}

@[simp] theorem recordsText_nil : recordsText []=[] := rfl

@[simp] theorem recordsText_cons (e : PyStr × PyStr) (es : List (PyStr × PyStr)) :
    recordsText (e::es)=itemText e ++ recordSep::recordsText es := by
  simp [recordsText]

theorem recordsText_append : recordsText (es ++ fs)=recordsText es ++ recordsText fs :=
  List.flatMap_append

/-- The decimal digits hold no separator. -/
theorem sep_notMem_lengthText (value : PyStr) : fieldSep∉lengthText value := by
  intro hmem
  have hdigits : (0x1f : UInt8)∈asciiDigits (value.flatMap encodeCodePoint).length := by
    rw [← encoded_toString]
    exact List.mem_flatMap.mpr ⟨fieldSep,hmem,by decide⟩
  exact notMem_asciiDigits (by decide) _ hdigits

/-- A framed value is determined by its text. -/
theorem framedValue_injective {v w : PyStr} (h : framedValue v=framedValue w) : v=w :=
  (append_sep_cancel (sep_notMem_lengthText v) (sep_notMem_lengthText w) h).2

/-- The text of a framed item is its record. -/
theorem frame_of_item {r : Record UInt8} (h : encodeItem e=some r) :
    recordFraming.frame r=(itemText e ++ [recordSep]).flatMap encodeCodePoint := by
  have hkey := encodeUtf8_eq_some (encodeItem_eq_some h).1
  have hvalue := encodeUtf8_eq_some (encodeItem_eq_some h).2
  have hsep : encodeCodePoint fieldSep=[0x1f] := by decide
  have hstop : encodeCodePoint recordSep=[0x1e] := by decide
  simp only [itemText,framedValue,lengthText,List.flatMap_append,List.flatMap_cons,List.flatMap_nil,hsep,hstop,
    encoded_toString,hkey,hvalue,Framing.frame,Framing.head]
  simp [recordFraming]

/-- The text of framed items is the stream of their records. -/
theorem stream_of_items {rs : List (Record UInt8)}
    (h : List.Forall₂ (fun e r => encodeItem e=some r) es rs) :
    recordFraming.stream rs=(recordsText es).flatMap encodeCodePoint := by
  induction h with
  | nil => rfl
  | cons hitem _ ih =>
    rw [Framing.stream_cons,frame_of_item hitem,ih]
    simp [recordsText]

theorem encodable_append {x y : PyStr} : encodable (x ++ y)=true ↔ encodable x=true ∧ encodable y=true := by
  unfold encodable
  rw [List.all_append,Bool.and_eq_true]

theorem encodable_cons {c : Fin 0x110000} {x : PyStr} :
    encodable (c::x)=true ↔ isSurrogate c=false ∧ encodable x=true := by
  unfold encodable
  simp

/-- A framed item encodes as its key and its value do. -/
theorem encodable_itemText : encodable (itemText e)=true ↔ encodable e.1=true ∧ encodable e.2=true := by
  have hsep : isSurrogate fieldSep=false := by decide
  simp only [itemText,framedValue,encodable_append,encodable_cons,hsep,true_and,lengthText,encodable_pyStr]

/-- Framed items encode as they do one by one. -/
theorem encodable_recordsText {es : List (PyStr × PyStr)} :
    encodable (recordsText es)=true ↔ ∀ e∈es,encodable e.1=true ∧ encodable e.2=true := by
  have hstop : isSurrogate recordSep=false := by decide
  induction es with
  | nil => simp [encodable]
  | cons e es ih =>
    simp only [recordsText_cons,encodable_append,encodable_cons,encodable_itemText,hstop,true_and,ih,
      List.forall_mem_cons]

/-- The bytes of an encodable map are those of its text. -/
theorem checksumInputData_text (h : Encodable d) :
    checksumInputData d=encodeUtf8 (mapText d) := by
  have hsorted : ∀ e∈d.sortedItems,encodable e.1=true ∧ encodable e.2=true :=
    fun e he => h e (PyDict.mem_sortedItems.mp he)
  obtain ⟨rs,hrs⟩ := records_total hsorted
  have hencodable : encodable (mapText d)=true := encodable_recordsText.mpr hsorted
  unfold checksumInputData encodeUtf8
  rw [if_pos hencodable,hrs]
  exact congrArg some (stream_of_items (records_of_mapM hrs))

/-- Two encodable maps have the same bytes exactly when they have the same text. -/
theorem bytes_eq_iff (h : Encodable d) (h' : Encodable d') :
    checksumInputData d=checksumInputData d' ↔ mapText d=mapText d' := by
  rw [checksumInputData_text h,checksumInputData_text h']
  constructor
  · intro heq
    have hencodable : encodable (mapText d)=true :=
      encodable_recordsText.mpr fun e he => h e (PyDict.mem_sortedItems.mp he)
    have hbytes : encodeUtf8 (mapText d)=some ((mapText d).flatMap encodeCodePoint) := if_pos hencodable
    exact encodeUtf8_injective hbytes (heq ▸ hbytes)
  · intro heq
    rw [heq]

end Texts

/-- The value ends in a framed value, so that the key may run on up to there. -/
def EndsFramed (e : PyStr × PyStr) : Prop := ∃ x value,fieldSep::e.2=x ++ fieldSep::framedValue value

/-- The key holds the length of what follows it, so that a shorter key may end there. -/
def FramesRest (e : PyStr × PyStr) : Prop :=
  ∃ key x,e.1 ++ [fieldSep]=key ++ fieldSep::lengthText (x ++ framedValue e.2) ++ fieldSep::x

/-- The key holds the record of an item in front of a greater key. -/
def HoldsRecord (e : PyStr × PyStr) : Prop :=
  ∃ f rest,e.1=itemText f ++ recordSep::rest ∧ f.1 < rest

/-- The map is empty, or its one item can be cut in one way only. -/
def Unambiguous (d : PyDict) : Prop :=
  d.items=[] ∨ ∃ e,d.items=[e] ∧ ¬EndsFramed e ∧ ¬FramesRest e ∧ ¬HoldsRecord e

/-- What a framed value cuts in front of a separator begins with the length. -/
theorem length_of_framed {value x rest : PyStr} (h : framedValue value=x ++ fieldSep::rest) :
    ∃ y,x=lengthText value ++ y ∧ fieldSep::value=y ++ fieldSep::rest := by
  rcases List.append_eq_append_iff.mp h with ⟨y,hx,hvalue⟩ | ⟨y,hlength,hvalue⟩
  · exact ⟨y,hx,hvalue⟩
  · cases y with
    | nil => exact ⟨[],by simpa using hlength.symm,by simpa using hvalue.symm⟩
    | cons c y =>
      have hsep : fieldSep=c := (List.cons.inj hvalue).1
      have hmem : fieldSep∈lengthText value := by simp [hlength,hsep]
      exact absurd hmem (sep_notMem_lengthText value)

section Cuts
variable {e f : PyStr × PyStr} {x : PyStr}

/-- Two framed items with one text, the second with the longer key: the first
item's value ends in the second one's. -/
theorem endsFramed_of_longer (hkey : f.1=e.1 ++ fieldSep::x) (h : itemText e=itemText f) : EndsFramed e := by
  have htail : framedValue e.2=x ++ fieldSep::framedValue f.2 := by
    simpa [itemText,hkey] using h
  obtain ⟨y,_,hvalue⟩ := length_of_framed htail
  exact ⟨y,f.2,hvalue⟩

/-- Two framed items with one text, the second with the shorter key: the first
item's key holds the length of the second one's value. -/
theorem framesRest_of_shorter (hkey : e.1=f.1 ++ fieldSep::x) (h : itemText e=itemText f) : FramesRest e := by
  have htail : framedValue f.2=x ++ fieldSep::framedValue e.2 := by
    simpa [itemText,hkey] using h.symm
  obtain ⟨y,hx,hvalue⟩ := length_of_framed htail
  cases y with
  | nil =>
    have hf : f.2=framedValue e.2 := (List.cons.inj hvalue).2
    exact ⟨f.1,[],by simp [hkey,hx,hf]⟩
  | cons c y =>
    obtain ⟨rfl,hf⟩ := List.cons.inj hvalue
    exact ⟨f.1,y ++ [fieldSep],by simp [hkey,hx,hf]⟩

/-- Framed items with one text are the same item, or the first can be cut again. -/
theorem item_of_text (h : itemText e=itemText f) : e=f ∨ e.1≠f.1 ∧ (EndsFramed e ∨ FramesRest e) := by
  rcases List.append_eq_append_iff.mp h with ⟨y,hkey,hrest⟩ | ⟨y,hkey,hrest⟩
  · cases y with
    | nil =>
      have hvalue : e.2=f.2 := framedValue_injective (List.cons.inj hrest).2
      exact Or.inl (Prod.ext (by simpa using hkey.symm) hvalue)
    | cons c y =>
      obtain ⟨rfl,_⟩ := List.cons.inj hrest
      exact Or.inr ⟨by simp [hkey],Or.inl (endsFramed_of_longer hkey h)⟩
  · cases y with
    | nil =>
      have hvalue : e.2=f.2 := (framedValue_injective (List.cons.inj hrest).2).symm
      exact Or.inl (Prod.ext (by simpa using hkey) hvalue)
    | cons c y =>
      obtain ⟨rfl,_⟩ := List.cons.inj hrest
      exact Or.inr ⟨by simp [hkey],Or.inr (framesRest_of_shorter hkey h)⟩

end Cuts

section Maps
variable {d d' : PyDict} {e f : PyStr × PyStr}

/-- Sorted items have increasing keys. -/
theorem sortedItems_increasing (d : PyDict) : d.sortedItems.Pairwise fun e f => e.1 < f.1 := by
  have hle : d.sortedItems.Pairwise fun e f => e.1 ≤ f.1 := List.pairwise_insertionSort _ _
  have hne : d.sortedItems.Pairwise fun e f => e.1≠f.1 := List.pairwise_map.mp PyDict.nodup_sortedItems
  exact (hle.and hne).imp fun h => lt_of_le_of_ne h.1 h.2

/-- A list of increasing keys is the sorted list of its map. -/
theorem sortedItems_of_increasing (h : d.items.Pairwise fun e f => e.1 < f.1) : d.sortedItems=d.items :=
  List.Pairwise.insertionSort_eq (h.imp fun h => le_of_lt h)

/-- The text of the records in front of the last one, and its key. -/
theorem recordsText_concat (es : List (PyStr × PyStr)) (e : PyStr × PyStr) :
    recordsText (es ++ [e])=itemText (recordsText es ++ e.1,e.2) ++ [recordSep] := by
  simp [recordsText_append,itemText]

/-- The first of some keys begins the text of their records. -/
theorem key_lt_recordsText {es : List (PyStr × PyStr)} (h : (f::es ++ [e]).Pairwise fun e f => e.1 < f.1) :
    f.1 < recordsText es ++ e.1 := by
  have hall := (List.pairwise_cons.mp h).1
  cases es with
  | nil => exact hall e (by simp)
  | cons g es =>
    have hlt : f.1 < g.1 := hall g (by simp)
    have hprefix : g.1 <+: recordsText (g::es) ++ e.1 := ⟨_,by simp [itemText]; rfl⟩
    exact lt_of_lt_of_le hlt (not_lt.mp (List.not_lt.mpr hprefix.le))

/-- A map with the text of one item holds that item, or the item can be cut again. -/
theorem map_of_itemText (h : itemText e ++ [recordSep]=mapText d) :
    d.sortedItems=[e] ∨ EndsFramed e ∨ FramesRest e ∨ HoldsRecord e := by
  have hsorted := sortedItems_increasing d
  unfold mapText at h
  rcases List.eq_nil_or_concat d.sortedItems with hnil | ⟨es,last,hes⟩
  · rw [hnil] at h
    simp at h
  · rw [List.concat_eq_append] at hes
    rw [hes] at h hsorted ⊢
    rw [recordsText_concat] at h
    rcases item_of_text (List.append_cancel_right h) with heq | ⟨_,hcut⟩
    · cases es with
      | nil => exact Or.inl (by simp [heq])
      | cons f es =>
        refine Or.inr (Or.inr (Or.inr ⟨f,recordsText es ++ last.1,?_,key_lt_recordsText hsorted⟩))
        simp [heq]
    · exact Or.inr (hcut.imp id Or.inl)

/-- Maps with one text encode alike. -/
theorem encodable_of_text (h : Encodable d) (htext : mapText d'=mapText d) : Encodable d' := by
  have hencodable : encodable (mapText d')=true := by
    rw [htext]
    exact encodable_recordsText.mpr fun e he => h e (PyDict.mem_sortedItems.mp he)
  exact fun e he => encodable_recordsText.mp hencodable e (PyDict.mem_sortedItems.mpr he)

/-- The text of a map whose items are in order. -/
theorem mapText_of_increasing (h : d.items.Pairwise fun e f => e.1 < f.1) : mapText d=recordsText d.items := by
  rw [mapText,sortedItems_of_increasing h]

/-- A map of one item. -/
def oneItem (e : PyStr × PyStr) : PyDict := ⟨[e],List.nodup_singleton _⟩

theorem mapText_oneItem (e : PyStr × PyStr) : mapText (oneItem e)=itemText e ++ [recordSep] := by
  rw [mapText_of_increasing (List.pairwise_singleton _ _)]
  exact recordsText_cons e []

/-- A map that is the only one with its text has at most one item. -/
theorem items_of_unshared (h : ∀ d' : PyDict,mapText d'=mapText d → ∀ key,d'.get? key=d.get? key) :
    d.items=[] ∨ ∃ e,d.items=[e] := by
  have hperm : d.sortedItems.Perm d.items := List.perm_insertionSort _ _
  rcases List.eq_nil_or_concat d.sortedItems with hnil | ⟨es,last,hes⟩
  · rw [hnil] at hperm
    exact Or.inl (List.nil_perm.mp hperm)
  · rw [List.concat_eq_append] at hes
    -- One item with everything in front of the last value as its key has the same text.
    have htext : mapText (oneItem (recordsText es ++ last.1,last.2))=mapText d := by
      rw [mapText_oneItem,mapText,hes,recordsText_concat]
    have hlast : (last.1,last.2)∈d.items := hperm.mem_iff.mp (by simp [hes])
    have hone : (last.1,last.2)∈(oneItem (recordsText es ++ last.1,last.2)).items := by
      rw [PyDict.mem_items,h _ htext,← PyDict.mem_items]
      exact hlast
    have hrecords : recordsText es=[] := by
      simpa [oneItem] using congrArg Prod.fst (List.mem_singleton.mp hone)
    cases es with
    | nil =>
      rw [hes] at hperm
      exact Or.inr ⟨last,(List.singleton_perm.mp hperm).symm⟩
    | cons f es => simp at hrecords

/-- A map that is the only one with its text holds no item that can be cut again. -/
theorem uncut_of_unshared (hitems : d.items=[e])
    (h : ∀ d' : PyDict,mapText d'=mapText d → ∀ key,d'.get? key=d.get? key) :
    ¬EndsFramed e ∧ ¬FramesRest e ∧ ¬HoldsRecord e := by
  have hd : d=oneItem e := PyDict.ext hitems
  subst hd
  have hkeys : ∀ d' : PyDict,mapText d'=itemText e ++ [recordSep] → ∀ f∈d'.items,f.1=e.1 := by
    intro d' htext f hf
    have hget := h d' (htext.trans (mapText_oneItem e).symm) f.1
    have hmem : (f.1,f.2)∈(oneItem e).items := by
      rw [PyDict.mem_items,← hget,← PyDict.mem_items]
      exact hf
    exact congrArg Prod.fst (List.mem_singleton.mp hmem)
  refine ⟨?_,?_,?_⟩
  · rintro ⟨x,value,hvalue⟩
    have hkey := hkeys (oneItem (e.1 ++ fieldSep::lengthText e.2 ++ x,value)) (by
      rw [mapText_oneItem]
      simp [itemText,framedValue,hvalue]) _ List.mem_cons_self
    simp at hkey
  · rintro ⟨key,x,hcut⟩
    have htext : itemText (key,x ++ framedValue e.2)=itemText e := by
      have hopen : itemText e=(e.1 ++ [fieldSep]) ++ framedValue e.2 := by simp [itemText]
      rw [hopen,hcut]
      simp [itemText,framedValue]
    have hkey : key=e.1 := hkeys (oneItem (key,x ++ framedValue e.2)) (by
      rw [mapText_oneItem,htext]) _ List.mem_cons_self
    have hlength := congrArg List.length hcut
    simp [hkey] at hlength
  · rintro ⟨f,rest,hcut,hlt⟩
    let d' : PyDict := ⟨[f,(rest,e.2)],by simpa using hlt.ne⟩
    have hkey : f.1=e.1 := hkeys d' (by
      rw [mapText_of_increasing (by simpa [d'] using hlt)]
      simp [d',itemText,hcut]) _ List.mem_cons_self
    have hlength := congrArg List.length hcut
    simp [← hkey,itemText] at hlength

end Maps

/-- A map shares its bytes with no other map exactly when it is unambiguous; two
maps of any size do not share them when no key of one imitates a record of the other. -/
theorem checksumInputData_unshared_iff {d : PyDict} (h : Encodable d) :
    ((∀ d' : PyDict,Encodable d' → checksumInputData d'=checksumInputData d → ∀ key,d'.get? key=d.get? key) ↔
      Unambiguous d) ∧
    ∀ d' : PyDict,Encodable d' → (∀ e∈d.items,∀ f∈d'.items,¬Imitates e f ∧ ¬Imitates f e) →
      checksumInputData d'=checksumInputData d → ∀ key,d'.get? key=d.get? key := by
  constructor
  · constructor
    · intro hunshared
      have htexts : ∀ d' : PyDict,mapText d'=mapText d → ∀ key,d'.get? key=d.get? key := by
        intro d' htext
        have h' := encodable_of_text h htext
        exact hunshared d' h' ((bytes_eq_iff h' h).mpr htext)
      rcases items_of_unshared htexts with hnil | ⟨e,he⟩
      · exact Or.inl hnil
      · exact Or.inr ⟨e,he,uncut_of_unshared he htexts⟩
    · intro hunambiguous d' h' hbytes
      have htext := (bytes_eq_iff h' h).mp hbytes
      apply PyDict.get?_of_sortedItems
      rcases hunambiguous with hnil | ⟨e,he,hends,hframes,hholds⟩
      · have hempty : d.sortedItems=[] := by simp [PyDict.sortedItems,hnil]
        rw [mapText,mapText,hempty] at htext
        cases hitems : d'.sortedItems with
        | nil => exact hempty.symm
        | cons f fs => simp [hitems] at htext
      · have hone : d=oneItem e := PyDict.ext he
        subst hone
        rw [mapText_oneItem] at htext
        rcases map_of_itemText htext.symm with hitems | hcut | hcut | hcut
        · rw [hitems]
          rfl
        · exact absurd hcut hends
        · exact absurd hcut hframes
        · exact absurd hcut hholds
  · intro d' h' hapart hbytes key
    obtain ⟨bytes,hd⟩ := checksumInputData_total h
    exact (checksumInputData_injective hd (hbytes.trans hd) hapart key).symm

/-- A key and a value without the separator frame nothing. -/
theorem unambiguous_of_plain {e : PyStr × PyStr} (hkey : fieldSep∉e.1) (hvalue : fieldSep∉e.2) :
    Unambiguous (oneItem e) := by
  refine Or.inr ⟨e,rfl,?_,?_,?_⟩
  · rintro ⟨x,value,hcut⟩
    have hcount := congrArg (List.count fieldSep) hcut
    simp [framedValue,List.count_eq_zero_of_not_mem hvalue] at hcount
    omega
  · rintro ⟨key,x,hcut⟩
    have hcount := congrArg (List.count fieldSep) hcut
    simp [List.count_eq_zero_of_not_mem hkey] at hcount
    omega
  · rintro ⟨f,rest,hcut,_⟩
    exact hkey (by simp [hcut,itemText])

/-- The map of one plain field shares its bytes with no other. -/
theorem checksumInputData_unshared_iff_prompt :
    Unambiguous (oneItem (pyStr "prompt",pyStr "c")) ∧
    ((∀ d' : PyDict,Encodable d' → checksumInputData d'=checksumInputData (oneItem (pyStr "prompt",pyStr "c")) →
      ∀ key,d'.get? key=(oneItem (pyStr "prompt",pyStr "c")).get? key) ↔
      Unambiguous (oneItem (pyStr "prompt",pyStr "c"))) := by
  have hencodable : Encodable (oneItem (pyStr "prompt",pyStr "c")) := by
    unfold Encodable
    decide
  exact ⟨unambiguous_of_plain (by decide) (by decide),(checksumInputData_unshared_iff hencodable).1⟩

/-- Two fields have the bytes of the one field whose key holds the first field's record. -/
theorem checksumInputData_fails :
    Encodable (PyDict.empty.setItems [(pyStr "context",pyStr "ab"),(pyStr "prompt",pyStr "c")]) ∧
    Encodable (oneItem (pyStr "context\x1f2\x1fab\x1eprompt",pyStr "c")) ∧
    checksumInputData (PyDict.empty.setItems [(pyStr "context",pyStr "ab"),(pyStr "prompt",pyStr "c")])=
      checksumInputData (oneItem (pyStr "context\x1f2\x1fab\x1eprompt",pyStr "c")) ∧
    (PyDict.empty.setItems [(pyStr "context",pyStr "ab"),(pyStr "prompt",pyStr "c")]).get? (pyStr "context")≠
      (oneItem (pyStr "context\x1f2\x1fab\x1eprompt",pyStr "c")).get? (pyStr "context") := by
  unfold Encodable
  decide +kernel

end GenericMlCache.FramedMaps
