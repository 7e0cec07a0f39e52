import GenericMlCache.JsonRoundTrip
import GenericMlCache.RepositoryCalls

/-!
# The text of the usage block

The provider's usage block is frozen on construction, thawed and dumped into one
text column, and parsed and frozen again when its row is loaded. The repository's
column of parsed blocks is the view of that text.
-/

namespace GenericMlCache.UsageTexts

open PythonText ExecutionModel SqliteStore ExecutionRepository ExecutionQueries RepositoryCalls JsonText JsonRoundTrip

/-- What `deep_freeze` makes of a JSON value. -/
inductive Frozen where
  | null
  | bool (b : Bool)
  | int (n : ℤ)
  | float (bits : UInt64)
  | str (s : PyStr)
  | tuple (items : List Frozen)
  | mappingProxy (fields : List (PyStr × Frozen))

/-- The stack that a recursive function finds where it is called. How many frames its
calls take depends on the interpreter. -/
structure Stack where
  /-- The frames left before the recursion limit. -/
  left : ℕ
  /-- The frames of a call with the checks it makes. -/
  call : ℕ
  /-- The frames that stay while the values of a mapping are gone through. -/
  mapping : ℕ
  /-- The frames that stay while the items of a sequence are gone through. -/
  sequence : ℕ

/-- The stack behind frames that stay. -/
def Stack.behind (stack : Stack) (frames : ℕ) : Stack := { stack with left := stack.left-frames }

/-- A RecursionError. -/
def recursionExceeded : PyExc := .other true (pyStr "maximum recursion depth exceeded")

/-- A call that takes frames. -/
def Stack.run {α : Type} (stack : Stack) (frames : ℕ) (body : Except PyExc α) : Except PyExc α :=
  if max stack.call frames ≤ stack.left then body else .error recursionExceeded

mutual

/-- `deep_freeze`. -/
def deepFreeze (stack : Stack) : Json → Except PyExc Frozen
  | .null => stack.run 0 (.ok .null)
  | .bool b => stack.run 0 (.ok (.bool b))
  | .int n => stack.run 0 (.ok (.int n))
  | .float bits => stack.run 0 (.ok (.float bits))
  | .str s => stack.run 0 (.ok (.str s))
  | .arr items =>
    stack.run stack.sequence ((deepFreezeItems (stack.behind stack.sequence) items).map .tuple)
  | .obj fields =>
    stack.run stack.mapping ((deepFreezeFields (stack.behind stack.mapping) fields).map .mappingProxy)

/-- It freezes every item. -/
def deepFreezeItems (stack : Stack) : List Json → Except PyExc (List Frozen)
  | [] => .ok []
  | item::items => do
    let frozen ← deepFreeze stack item
    let rest ← deepFreezeItems stack items
    return frozen::rest

/-- It freezes every value. -/
def deepFreezeFields (stack : Stack) : List (PyStr × Json) → Except PyExc (List (PyStr × Frozen))
  | [] => .ok []
  | (key,value)::fields => do
    let frozen ← deepFreeze stack value
    let rest ← deepFreezeFields stack fields
    return (key,frozen)::rest

end

mutual

/-- `thaw`. -/
def thaw (stack : Stack) : Frozen → Except PyExc Json
  | .null => stack.run 0 (.ok .null)
  | .bool b => stack.run 0 (.ok (.bool b))
  | .int n => stack.run 0 (.ok (.int n))
  | .float bits => stack.run 0 (.ok (.float bits))
  | .str s => stack.run 0 (.ok (.str s))
  | .tuple items => stack.run stack.sequence ((thawItems (stack.behind stack.sequence) items).map .arr)
  | .mappingProxy fields => stack.run stack.mapping ((thawFields (stack.behind stack.mapping) fields).map .obj)

/-- It thaws every item. -/
def thawItems (stack : Stack) : List Frozen → Except PyExc (List Json)
  | [] => .ok []
  | item::items => do
    let thawed ← thaw stack item
    let rest ← thawItems stack items
    return thawed::rest

/-- It thaws every value. -/
def thawFields (stack : Stack) : List (PyStr × Frozen) → Except PyExc (List (PyStr × Json))
  | [] => .ok []
  | (key,value)::fields => do
    let thawed ← thaw stack value
    let rest ← thawFields stack fields
    return (key,thawed)::rest

end

mutual

/-- The frames that going through a value takes. -/
def Stack.needs (stack : Stack) : Json → ℕ
  | .arr items => max stack.call (stack.sequence+stack.needsItems items)
  | .obj fields => max stack.call (stack.mapping+stack.needsFields fields)
  | _ => stack.call

/-- The frames that the deepest of some items takes. -/
def Stack.needsItems (stack : Stack) : List Json → ℕ
  | [] => 0
  | item::items => max (stack.needs item) (stack.needsItems items)

/-- The frames that the deepest of some values takes. -/
def Stack.needsFields (stack : Stack) : List (PyStr × Json) → ℕ
  | [] => 0
  | (_,value)::fields => max (stack.needs value) (stack.needsFields fields)

end

/-- Whether a stack is enough to go through a value. -/
def Stack.Holds (stack : Stack) (value : Json) : Prop := stack.needs value ≤ stack.left

instance (stack : Stack) (value : Json) : Decidable (stack.Holds value) := inferInstanceAs (Decidable (_ ≤ _))

mutual

/-- The frames do not depend on how many are left. -/
theorem Stack.needs_behind (stack : Stack) (frames : ℕ) (value : Json) :
    (stack.behind frames).needs value=stack.needs value := by
  match value with
  | .null | .bool _ | .int _ | .float _ | .str _ => rfl
  | .arr items =>
    rw [Stack.needs,Stack.needs,Stack.needsItems_behind stack frames items]
    rfl
  | .obj fields =>
    rw [Stack.needs,Stack.needs,Stack.needsFields_behind stack frames fields]
    rfl

/-- Nor those of items. -/
theorem Stack.needsItems_behind (stack : Stack) (frames : ℕ) (items : List Json) :
    (stack.behind frames).needsItems items=stack.needsItems items := by
  match items with
  | [] => rfl
  | item::items =>
    rw [Stack.needsItems,Stack.needsItems,Stack.needs_behind stack frames item,
      Stack.needsItems_behind stack frames items]

/-- Nor those of values. -/
theorem Stack.needsFields_behind (stack : Stack) (frames : ℕ) (fields : List (PyStr × Json)) :
    (stack.behind frames).needsFields fields=stack.needsFields fields := by
  match fields with
  | [] => rfl
  | (key,value)::fields =>
    rw [Stack.needsFields,Stack.needsFields,Stack.needs_behind stack frames value,
      Stack.needsFields_behind stack frames fields]

end

/-- A call that takes frames succeeds where it has them and its body succeeds. -/
theorem Stack.run_ok {α : Type} {stack : Stack} {frames : ℕ} {body : Except PyExc α} {a : α} :
    stack.run frames body=.ok a ↔ (stack.call ≤ stack.left ∧ frames ≤ stack.left) ∧ body=.ok a := by
  unfold Stack.run
  split
  next h => exact (and_iff_right (max_le_iff.mp h)).symm
  next h => exact ⟨fun herror => by (cases herror),fun hok => absurd (max_le_iff.mpr hok.1) h⟩

/-- A packed result. -/
theorem map_eq_ok {α β : Type} {r : Except PyExc α} {f : α → β} {b : β} : r.map f=.ok b ↔ ∃ a,r=.ok a ∧ f a=b := by
  cases r with
  | ok a => exact ⟨fun h => ⟨a,rfl,Except.ok.inj h⟩,fun ⟨_,ha,hf⟩ => by rw [Except.map,Except.ok.inj ha,hf]⟩
  | error e => exact ⟨fun h => by (cases h),fun ⟨_,ha,_⟩ => by cases ha⟩

mutual

/-- `deep_freeze` gets through a value exactly where the stack is enough for it. -/
theorem deepFreeze_ok_iff (stack : Stack) (value : Json) : (∃ f,deepFreeze stack value=.ok f) ↔ stack.Holds value := by
  have hscalar : ∀ f : Frozen,(∃ g,stack.run 0 (.ok f)=.ok g) ↔ stack.call ≤ stack.left := by
    intro f
    simp only [Stack.run_ok,Nat.zero_le,and_true,Except.ok.injEq,exists_and_left,exists_eq']
  match value with
  | .null | .bool _ | .int _ | .float _ | .str _ => exact hscalar _
  | .arr items =>
    have hitems := deepFreezeItems_ok_iff (stack.behind stack.sequence) items
    rw [Stack.needsItems_behind] at hitems
    simp only [deepFreeze,Stack.run_ok,map_eq_ok,Stack.Holds,Stack.needs]
    constructor
    · rintro ⟨_,⟨hcall,hframes⟩,frozen,hfrozen,_⟩
      have hleft := hitems.mp ⟨frozen,hfrozen⟩
      simp only [Stack.behind] at hleft
      omega
    · intro h
      obtain ⟨frozen,hfrozen⟩ := hitems.mpr (by simp only [Stack.behind]; omega)
      exact ⟨_,⟨by omega,by omega⟩,frozen,hfrozen,rfl⟩
  | .obj fields =>
    have hfields := deepFreezeFields_ok_iff (stack.behind stack.mapping) fields
    rw [Stack.needsFields_behind] at hfields
    simp only [deepFreeze,Stack.run_ok,map_eq_ok,Stack.Holds,Stack.needs]
    constructor
    · rintro ⟨_,⟨hcall,hframes⟩,frozen,hfrozen,_⟩
      have hleft := hfields.mp ⟨frozen,hfrozen⟩
      simp only [Stack.behind] at hleft
      omega
    · intro h
      obtain ⟨frozen,hfrozen⟩ := hfields.mpr (by simp only [Stack.behind]; omega)
      exact ⟨_,⟨by omega,by omega⟩,frozen,hfrozen,rfl⟩

/-- So it does with a list's items. -/
theorem deepFreezeItems_ok_iff (stack : Stack) (items : List Json) :
    (∃ f,deepFreezeItems stack items=.ok f) ↔ stack.needsItems items ≤ stack.left := by
  match items with
  | [] => exact ⟨fun _ => Nat.zero_le _,fun _ => ⟨_,rfl⟩⟩
  | item::items =>
    have hitem := deepFreeze_ok_iff stack item
    have hitems := deepFreezeItems_ok_iff stack items
    rw [Stack.needsItems,max_le_iff,← hitems]
    refine Iff.trans ?_ (and_congr_left' hitem)
    constructor
    · rintro ⟨_,h⟩
      obtain ⟨f,hf,h⟩ := ok_of_bind h
      obtain ⟨rest,hrest,_⟩ := ok_of_bind h
      exact ⟨⟨f,hf⟩,rest,hrest⟩
    · rintro ⟨⟨f,hf⟩,rest,hrest⟩
      refine ⟨f::rest,?_⟩
      rw [deepFreezeItems,hf,hrest]
      rfl

/-- And with a dict's values. -/
theorem deepFreezeFields_ok_iff (stack : Stack) (fields : List (PyStr × Json)) :
    (∃ f,deepFreezeFields stack fields=.ok f) ↔ stack.needsFields fields ≤ stack.left := by
  match fields with
  | [] => exact ⟨fun _ => Nat.zero_le _,fun _ => ⟨_,rfl⟩⟩
  | (key,value)::fields =>
    have hvalue := deepFreeze_ok_iff stack value
    have hfields := deepFreezeFields_ok_iff stack fields
    rw [Stack.needsFields,max_le_iff,← hfields]
    refine Iff.trans ?_ (and_congr_left' hvalue)
    constructor
    · rintro ⟨_,h⟩
      obtain ⟨f,hf,h⟩ := ok_of_bind h
      obtain ⟨rest,hrest,_⟩ := ok_of_bind h
      exact ⟨⟨f,hf⟩,rest,hrest⟩
    · rintro ⟨⟨f,hf⟩,rest,hrest⟩
      refine ⟨(key,f)::rest,?_⟩
      rw [deepFreezeFields,hf,hrest]
      rfl

end

mutual

/-- Thawing undoes freezing, where its stack is enough. -/
theorem thaw_deepFreeze {stack other : Stack} {value : Json} {f : Frozen} (h : deepFreeze stack value=.ok f)
    (hstack : other.Holds value) : thaw other f=.ok value := by
  match value with
  | .null | .bool _ | .int _ | .float _ | .str _ =>
    cases (Stack.run_ok.mp h).2
    exact Stack.run_ok.mpr ⟨⟨hstack,Nat.zero_le _⟩,rfl⟩
  | .arr items =>
    obtain ⟨_,hitems⟩ := Stack.run_ok.mp h
    obtain ⟨frozen,hfrozen,rfl⟩ := map_eq_ok.mp hitems
    obtain ⟨hcall,hframes⟩ := max_le_iff.mp hstack
    have hleft : (other.behind other.sequence).needsItems items ≤ (other.behind other.sequence).left := by
      rw [Stack.needsItems_behind]
      simp only [Stack.behind]
      omega
    exact Stack.run_ok.mpr ⟨⟨hcall,by omega⟩,map_eq_ok.mpr ⟨items,thawItems_deepFreezeItems hfrozen hleft,rfl⟩⟩
  | .obj fields =>
    obtain ⟨_,hfields⟩ := Stack.run_ok.mp h
    obtain ⟨frozen,hfrozen,rfl⟩ := map_eq_ok.mp hfields
    obtain ⟨hcall,hframes⟩ := max_le_iff.mp hstack
    have hleft : (other.behind other.mapping).needsFields fields ≤ (other.behind other.mapping).left := by
      rw [Stack.needsFields_behind]
      simp only [Stack.behind]
      omega
    exact Stack.run_ok.mpr ⟨⟨hcall,by omega⟩,map_eq_ok.mpr ⟨fields,thawFields_deepFreezeFields hfrozen hleft,rfl⟩⟩

/-- The same of a list's items. -/
theorem thawItems_deepFreezeItems {stack other : Stack} {items : List Json} {fs : List Frozen}
    (h : deepFreezeItems stack items=.ok fs) (hstack : other.needsItems items ≤ other.left) :
    thawItems other fs=.ok items := by
  match items with
  | [] =>
    cases h
    rfl
  | item::items =>
    obtain ⟨f,hf,h⟩ := ok_of_bind h
    obtain ⟨rest,hrest,h⟩ := ok_of_bind h
    cases h
    obtain ⟨hitem,hitems⟩ := max_le_iff.mp hstack
    rw [thawItems,thaw_deepFreeze hf hitem,thawItems_deepFreezeItems hrest hitems]
    rfl

/-- The same of a dict's values. -/
theorem thawFields_deepFreezeFields {stack other : Stack} {fields : List (PyStr × Json)}
    {fs : List (PyStr × Frozen)} (h : deepFreezeFields stack fields=.ok fs)
    (hstack : other.needsFields fields ≤ other.left) : thawFields other fs=.ok fields := by
  match fields with
  | [] =>
    cases h
    rfl
  | (key,value)::fields =>
    obtain ⟨f,hf,h⟩ := ok_of_bind h
    obtain ⟨rest,hrest,h⟩ := ok_of_bind h
    cases h
    obtain ⟨hvalue,hfields⟩ := max_le_iff.mp hstack
    rw [thawFields,thaw_deepFreeze hf hvalue,thawFields_deepFreezeFields hrest hfields]
    rfl

end

/-- How far the interpreter gets with a block before its recursion limit, where each of
the functions that the block goes through is called. -/
structure Interpreter where
  /-- The stack of `deep_freeze` where the usage was built. -/
  building : Stack
  /-- The stack of `thaw` where the usage is inserted. -/
  thawing : Stack
  /-- The stack of `deep_freeze` where the row is loaded. -/
  loading : Stack
  /-- Whether `json.dumps` gets through a value. -/
  encodes : Json → Bool
  /-- Whether `json.loads` gets through a text. -/
  decodes : PyStr → Bool


/-- One `token_usage` row, with the text of its block. -/
structure UsageTextRow where
  /-- `input_tokens`. -/
  inputTokens : Option ℤ
  /-- `output_tokens`. -/
  outputTokens : Option ℤ
  /-- `cache_read_tokens`. -/
  cacheReadTokens : Option ℤ
  /-- `cache_write_tokens`. -/
  cacheWriteTokens : Option ℤ
  /-- `reasoning_tokens`. -/
  reasoningTokens : Option ℤ
  /-- `cost_usd`. -/
  costUsd : Option UInt64
  /-- `raw_json`. -/
  rawJson : PyStr

section Row
variable (interpreter : Interpreter)

/-- `json.dumps(thaw(token_usage.raw))` of a block that was frozen when the usage was built. -/
def dumpsRaw (floatRepr : UInt64 → PyStr) (raw : List (PyStr × Json)) : Except PyExc PyStr := do
  let frozen ← deepFreeze interpreter.building (.obj raw)
  let thawed ← thaw interpreter.thawing frozen
  if interpreter.encodes thawed=true then dumps floatRepr thawed else .error recursionExceeded

/-- The parameters of the INSERT. The text of the block may fail to be made. -/
def usageTextRow (floatRepr : UInt64 → PyStr) (usage : TokenUsage) : Except PyExc UsageTextRow := do
  let rawJson ← dumpsRaw interpreter floatRepr usage.raw
  return { inputTokens := usage.inputTokens, outputTokens := usage.outputTokens,
           cacheReadTokens := usage.cacheReadTokens, cacheWriteTokens := usage.cacheWriteTokens,
           reasoningTokens := usage.reasoningTokens, costUsd := usage.costUsd.bind bindFloat,
           rawJson := rawJson }

/-- What `_load_token_usage` makes of the text column. It raises on a text that is no
JSON or no dict, as only a damaged row has it, and on one that `json.loads` or
`deep_freeze` does not get through. -/
def rawColumn (parseFloat : PyStr → UInt64) (text : PyStr) : Column (List (PyStr × Json)) :=
  if interpreter.decodes text=true then
    match loads parseFloat text with
    | .ok (.obj fields) =>
      match deepFreeze interpreter.loading (.obj fields) with
      | .ok _ => .value fields
      | .error _ => .malformed text
    | _ => .malformed text
  else .malformed text

/-- The row as the repository's queries see it. -/
def UsageTextRow.parsed (parseFloat : PyStr → UInt64) (row : UsageTextRow) : UsageRow where
  inputTokens := row.inputTokens
  outputTokens := row.outputTokens
  cacheReadTokens := row.cacheReadTokens
  cacheWriteTokens := row.cacheWriteTokens
  reasoningTokens := row.reasoningTokens
  costUsd := row.costUsd
  rawJson := rawColumn interpreter parseFloat row.rawJson

end Row

section Text
variable (codec : FloatCodec) (interpreter : Interpreter)

/-- `_insert_token_usage`, with the text it writes. -/
def insertTokenUsageText (existing : Option UsageRow) : Option TokenUsage → Except PyExc (Option UsageRow)
  | none => .ok existing
  | some usage => do
    let row ← usageTextRow interpreter codec.floatRepr usage
    bindOptional bindInteger usage.inputTokens
    bindOptional bindInteger usage.outputTokens
    bindOptional bindInteger usage.cacheReadTokens
    bindOptional bindInteger usage.cacheWriteTokens
    bindOptional bindInteger usage.reasoningTokens
    if existing.isSome=true then
      .error (.storeConsistency (.integrity
        (pyStr "UNIQUE constraint failed: token_usage.execution_id")))
    else return some (row.parsed interpreter codec.parseFloat)

/-- The row to insert has the next id. -/
theorem insertedRow_id (db : Db) (key : ExecutionKey) (execution : MlExecution) (stampedAt : Timestamp)
    (artifacts : List ArtifactRow) (usage : Option UsageRow) :
    (insertedRow db.nextId key execution stampedAt artifacts usage).id=db.nextId := rfl

/-- `_insert_execution`, with the text it writes. -/
def insertExecutionText (db : Db) (key : ExecutionKey) (execution : MlExecution) (stampedAt : Timestamp) :
    Except PyExc Db := do
  bindFailure execution.failure
  if hnew : ∀ r∈db.executions,r.executionId≠execution.executionId then
    let artifacts ← insertArtifacts execution.artifacts
    let usage ← insertTokenUsageText codec interpreter none execution.tokenUsage
    return db.appendRow (insertedRow db.nextId key execution stampedAt artifacts usage)
      (insertedRow_id db key execution stampedAt artifacts usage) hnew
  else
    .error (.storeConsistency (.integrity
      (pyStr "UNIQUE constraint failed: executions.execution_id")))

/-- `save`, with the text it writes. -/
def saveText (execution : MlExecution) (stampedAt : Timestamp) (db : Db) : Except PyExc Db := do
  let key := execution.callIdentity.generateKey
  let db ← upsertIdentity db key execution.callIdentity
  let db := if isServable execution=true then supersedePriorCurrent db key stampedAt else db
  insertExecutionText codec interpreter db key execution stampedAt

/-- `record_outcome`, with the text it writes. -/
def recordOutcomeText (execution : MlExecution) (db : Db) : Except PyExc Db :=
  match db.findRow execution.executionId with
  | none => .error (.storeConsistency (.noExecutionRow execution.executionId))
  | some row => do
    bindFailure execution.failure
    let usage ← insertTokenUsageText codec interpreter row.tokenUsage execution.tokenUsage
    return db.updateWhere (hasId execution.executionId) (outcomeColumns execution usage)

/-- A block that the interpreter gets through on its way to the text and back. -/
structure Carried (fields : List (PyStr × Json)) : Prop where
  /-- It was frozen when the usage was built. -/
  building : interpreter.building.Holds (.obj fields)
  /-- It is thawed. -/
  thawing : interpreter.thawing.Holds (.obj fields)
  /-- It is dumped. -/
  encodes : interpreter.encodes (.obj fields)=true
  /-- Its text is parsed. -/
  decodes : interpreter.decodes (renderValue codec.floatRepr (.obj fields))=true
  /-- It is frozen again. -/
  loading : interpreter.loading.Holds (.obj fields)

/-- A block whose text is read back as the block. -/
def Legible (fields : List (PyStr × Json)) : Prop :=
  readable (.obj fields)=true ∧ Carried codec interpreter fields

variable {codec interpreter}

/-- The text of a block that is frozen, thawed and dumped is the text of the block. -/
theorem dumpsRaw_eq {fields : List (PyStr × Json)} (hbuilding : interpreter.building.Holds (.obj fields))
    (hthawing : interpreter.thawing.Holds (.obj fields)) (hencodes : interpreter.encodes (.obj fields)=true) :
    dumpsRaw interpreter codec.floatRepr fields=dumps codec.floatRepr (.obj fields) := by
  obtain ⟨frozen,hfrozen⟩ := (deepFreeze_ok_iff _ _).mpr hbuilding
  unfold dumpsRaw
  rw [hfrozen]
  show (thaw interpreter.thawing frozen >>= fun thawed =>
    if interpreter.encodes thawed=true then dumps codec.floatRepr thawed else .error recursionExceeded)=_
  rw [thaw_deepFreeze hfrozen hthawing]
  exact if_pos hencodes

/-- The text of a legible block is parsed to the block. -/
theorem rawColumn_render {fields : List (PyStr × Json)} (h : Legible codec interpreter fields) :
    rawColumn interpreter codec.parseFloat (renderValue codec.floatRepr (.obj fields))=.value fields := by
  obtain ⟨hread,hcarried⟩ := h
  obtain ⟨frozen,hfrozen⟩ := (deepFreeze_ok_iff _ _).mpr hcarried.loading
  unfold rawColumn
  rw [if_pos hcarried.decodes,(loads_dumps codec hread).2]
  simp only [hfrozen]

/-- The row of a legible block is the row of the repository. -/
theorem usageTextRow_parsed {usage : TokenUsage} (h : Legible codec interpreter usage.raw) :
    ∃ row,usageTextRow interpreter codec.floatRepr usage=.ok row ∧
      row.parsed interpreter codec.parseFloat=usageRow usage := by
  unfold usageTextRow
  rw [dumpsRaw_eq h.2.building h.2.thawing h.2.encodes,(loads_dumps codec h.1).1]
  refine ⟨_,rfl,?_⟩
  unfold UsageTextRow.parsed usageRow
  rw [rawColumn_render h]

/-- With legible blocks the text column changes nothing. -/
theorem insertTokenUsageText_eq {usage : Option TokenUsage} (h : ∀ u ∈ usage,Legible codec interpreter u.raw)
    (existing : Option UsageRow) : insertTokenUsageText codec interpreter existing usage=insertTokenUsage existing usage := by
  cases usage with
  | none => rfl
  | some usage =>
    obtain ⟨row,hrow,hparsed⟩ := usageTextRow_parsed (h usage rfl)
    unfold insertTokenUsageText insertTokenUsage
    simp only [hrow,← hparsed]
    rfl

/-- Neither for `save`. -/
theorem saveText_eq {execution : MlExecution} (h : ∀ u ∈ execution.tokenUsage,Legible codec interpreter u.raw)
    (stampedAt : Timestamp) (db : Db) : saveText codec interpreter execution stampedAt db=save execution stampedAt db := by
  unfold saveText save insertExecutionText insertExecution
  simp only [insertTokenUsageText_eq h]

/-- Nor for `record_outcome`. -/
theorem recordOutcomeText_eq {execution : MlExecution}
    (h : ∀ u ∈ execution.tokenUsage,Legible codec interpreter u.raw) (db : Db) :
    recordOutcomeText codec interpreter execution db=recordOutcome execution db := by
  unfold recordOutcomeText recordOutcome
  cases db.findRow execution.executionId with
  | none => rfl
  | some row => simp only [insertTokenUsageText_eq h]

/-- What the queries of a key return for an execution that was recorded with this
usage: `find_all` returns the execution, and whatever returns it, returns it with
the usage. -/
structure LoadedBack (key : ExecutionKey) (executionId : ExecutionId) (usage : TokenUsage) (db : Db) : Prop where
  /-- The execution is found. -/
  found : ∃ all,findAll key db=.ok all ∧ ∃ e ∈ all,e.executionId=executionId
  /-- Among all of the key it has the usage. -/
  all : ∀ all,findAll key db=.ok all → ∀ e ∈ all,e.executionId=executionId → e.tokenUsage=some usage
  /-- As the current one it has the usage. -/
  current : ∀ e,findCurrent key db=.ok (some e) → e.executionId=executionId → e.tokenUsage=some usage

/-- A finite cost is bound as it is. -/
theorem bindFloat_finite {bits : UInt64} (h : isFinite bits=true) : bindFloat bits=some bits := by
  simp only [isFinite,ne_eq,decide_eq_true_eq] at h
  have hlt := bits.toNat_lt
  have hnan : ¬bits.toNat%2^63 > 0x7FF0000000000000 := by omega
  rw [bindFloat,if_neg hnan]

/-- The row of a usage with a finite cost loads as the usage. -/
theorem loadTokenUsage_usageRow {usage : TokenUsage} (h : ∀ c ∈ usage.costUsd,isFinite c=true) :
    loadTokenUsage (some (usageRow usage))=.ok (some usage) := by
  have hcost : usage.costUsd.bind bindFloat=usage.costUsd := by
    cases hc : usage.costUsd with
    | none => rfl
    | some c => exact bindFloat_finite (h c hc)
  unfold usageRow
  rw [hcost]
  rfl

/-- A row with the usage is loaded back with it. -/
theorem loadedBack_of_row {usage : TokenUsage} {db : Db} {row : ExecutionRow} (hdb : WellFormed db)
    (hrow : row∈db.executions) (husage : row.tokenUsage=some (usageRow usage))
    (hcost : ∀ c ∈ usage.costUsd,isFinite c=true) :
    LoadedBack row.executionKey row.executionId usage db := by
  have hloaded : ∀ r ∈ db.executions,∀ e,loadExecution db r=.ok e → e.executionId=row.executionId →
      e.tokenUsage=some usage := by
    intro r hr e he hid
    have hsame : r=row := db.row_unique hr hrow ((loadExecution_ok he).1.symm.trans hid)
    have hload := loadExecution_tokenUsage he
    rw [hsame,husage,loadTokenUsage_usageRow hcost] at hload
    exact (Except.ok.inj hload).symm
  constructor
  · obtain ⟨all,hall⟩ : ∃ all,(db.executions.filter (hasKey row.executionKey)).mapM (loadExecution db)=.ok all :=
      mapM_total fun r hr => loadExecution_total hdb (List.mem_filter.mp hr).1
    obtain ⟨e,he,hload⟩ := (mem_of_forall₂ (forall₂_of_mapM hall)).2 row (List.mem_filter.mpr ⟨hrow,by simp⟩)
    exact ⟨all,hall,e,he,(loadExecution_ok hload).1⟩
  · intro all hall e he hid
    obtain ⟨r,hr,hload⟩ := (mem_of_forall₂ (forall₂_of_mapM hall)).1 e he
    exact hloaded r (List.mem_filter.mp hr).1 e hload hid
  · intro e he hid
    obtain ⟨r,hr,hload⟩ := findCurrent_some he
    exact hloaded r (Db.currentRow_mem hr).1 e hload hid

/-- Where an execution is inserted without its usage, it is inserted with one that fits. -/
theorem insertExecution_with_usage {execution : MlExecution} {usage : TokenUsage} {key : ExecutionKey}
    {stampedAt : Timestamp} {db d : Db} (h : execution.tokenUsage=some usage) (hcounts : usage.storable=true)
    (hinsert : insertExecution db key { execution with tokenUsage := none } stampedAt=.ok d) :
    ∃ db',insertExecution db key execution stampedAt=.ok db' := by
  unfold insertExecution at hinsert ⊢
  obtain ⟨_,hfailure,hinsert⟩ := ok_of_bind hinsert
  have hfailure' : bindFailure execution.failure=.ok () := hfailure
  obtain ⟨row,hrow⟩ := @insertTokenUsage_none (some usage) hcounts
  by_cases hnew : ∀ r∈db.executions,r.executionId≠execution.executionId
  · rw [dif_pos hnew] at hinsert
    obtain ⟨artifacts,hartifacts,_⟩ := ok_of_bind hinsert
    have hartifacts' : insertArtifacts execution.artifacts=.ok artifacts := hartifacts
    refine ⟨db.appendRow (insertedRow db.nextId key execution stampedAt artifacts row) rfl hnew,?_⟩
    rw [hfailure',dif_pos hnew,hartifacts',h,hrow]
    rfl
  · rw [dif_neg hnew] at hinsert
    exact nomatch hinsert

/-- Where an execution is saved without its usage, it is saved with one that fits. -/
theorem save_with_usage {execution : MlExecution} {usage : TokenUsage} {stampedAt : Timestamp} {db d : Db}
    (h : execution.tokenUsage=some usage) (hcounts : usage.storable=true)
    (hsave : save { execution with tokenUsage := none } stampedAt db=.ok d) :
    ∃ db',save execution stampedAt db=.ok db' := by
  obtain ⟨base,hbase,hinsert⟩ := ok_of_bind hsave
  have hbase' : upsertIdentity db execution.callIdentity.generateKey execution.callIdentity=.ok base := hbase
  obtain ⟨db',hdb'⟩ := insertExecution_with_usage h hcounts hinsert
  refine ⟨db',?_⟩
  unfold save
  simp only [hbase']
  exact hdb'

/-- Where an outcome is recorded without its usage, it is recorded with one that
fits, as long as the row has none. -/
theorem recordOutcome_with_usage {execution : MlExecution} {usage : TokenUsage} {db d : Db} {row : ExecutionRow}
    (h : execution.tokenUsage=some usage) (hcounts : usage.storable=true)
    (hrow : db.findRow execution.executionId=some row) (hnone : row.tokenUsage=none)
    (hrecord : recordOutcome { execution with tokenUsage := none } db=.ok d) :
    ∃ db',recordOutcome execution db=.ok db' := by
  have hfind : db.findRow ({ execution with tokenUsage := none } : MlExecution).executionId=some row := hrow
  unfold recordOutcome at hrecord ⊢
  rw [hfind] at hrecord
  obtain ⟨_,hfailure,_⟩ := ok_of_bind hrecord
  have hfailure' : bindFailure execution.failure=.ok () := hfailure
  obtain ⟨usageRow,hinsert⟩ := @insertTokenUsage_none (some usage) hcounts
  refine ⟨db.updateWhere (hasId execution.executionId) (outcomeColumns execution usageRow),?_⟩
  rw [hrow]
  simp only [hfailure',hnone,h,hinsert]
  rfl

/-- Recording an execution with a usage and loading it back gives the usage, where
its block has no integer of too many digits and no split surrogate pair, and nests no
deeper than the interpreter gets. -/
theorem token_usage_survives {usage : TokenUsage} {execution : MlExecution} {db : Db} (hdb : WellFormed db)
    (husage : execution.tokenUsage=some usage) (hcounts : usage.storable=true)
    (hcost : ∀ c ∈ usage.costUsd,isFinite c=true) (hdict : wellFormed (.obj usage.raw)=true)
    (hints : printable (.obj usage.raw)=true) (htexts : separatedTexts (.obj usage.raw)=true)
    (hdepth : Carried codec interpreter usage.raw) :
    (∀ stampedAt d,save { execution with tokenUsage := none } stampedAt db=.ok d →
      ∃ db',saveText codec interpreter execution stampedAt db=.ok db' ∧
        LoadedBack execution.callIdentity.generateKey execution.executionId usage db') ∧
    (∀ row d,db.findRow execution.executionId=some row → row.tokenUsage=none →
      recordOutcome { execution with tokenUsage := none } db=.ok d →
      ∃ db',recordOutcomeText codec interpreter execution db=.ok db' ∧
        LoadedBack row.executionKey execution.executionId usage db') := by
  have hread : ∀ u ∈ execution.tokenUsage,Legible codec interpreter u.raw := by
    intro u hu
    rw [husage] at hu
    cases hu
    refine ⟨?_,hdepth⟩
    rw [readable_eq,hints,htexts,hdict]
    rfl
  constructor
  · intro stampedAt d hd
    obtain ⟨db',hsave⟩ := save_with_usage husage hcounts hd
    refine ⟨db',by rw [saveText_eq hread,hsave],?_⟩
    obtain ⟨id,_,_,hrows,_⟩ := save_ok hsave
    have hmem : insertedRow id execution.callIdentity.generateKey execution stampedAt
        (execution.artifacts.map artifactRow) (execution.tokenUsage.map usageRow)∈db'.executions := by
      rw [hrows]
      exact List.mem_append_right _ (List.mem_singleton_self _)
    have hstored : (insertedRow id execution.callIdentity.generateKey execution stampedAt
        (execution.artifacts.map artifactRow) (execution.tokenUsage.map usageRow)).tokenUsage=
        some (usageRow usage) := by
      rw [husage]
      rfl
    exact loadedBack_of_row (wellFormed_save hdb hsave) hmem hstored hcost
  · intro row d hrow hnone hd
    obtain ⟨db',hrecord⟩ := recordOutcome_with_usage husage hcounts hrow hnone hd
    refine ⟨db',by rw [recordOutcomeText_eq hread,hrecord],?_⟩
    have hwf := wellFormed_recordOutcome hdb hrecord
    obtain ⟨r,hr,hid,written,hinsert,rfl⟩ := recordOutcome_ok hrecord
    obtain ⟨hmem,hid'⟩ := Db.findRow_eq_some.mp hrow
    have hsame : r=row := db.row_unique hr hmem (hid.trans hid'.symm)
    subst hsame
    have hwritten : written=some (usageRow usage) := by
      rcases insertTokenUsage_ok hinsert with ⟨hno,_⟩ | ⟨_,hrow⟩
      · rw [husage] at hno
        exact nomatch hno
      · rw [hrow,husage]
        rfl
    have hupdated : r.update (outcomeColumns execution written)∈
        (db.updateWhere (hasId execution.executionId) (outcomeColumns execution written)).executions :=
      Db.mem_updateWhere.mpr ⟨r,hr,by rw [if_pos ((hasId_iff _ _).mpr hid)]⟩
    have hback := loadedBack_of_row hwf hupdated hwritten hcost
    rw [ExecutionRow.update_executionKey,ExecutionRow.update_executionId,hid] at hback
    exact hback

end Text

/-- A finished execution with a usage, ready to be saved. -/
def usageExecution (usage : TokenUsage) : MlExecution where
  callIdentity := ⟨⟨1⟩,pyStr "claude",pyStr "opus"⟩
  executionState := .success
  executionKind := .localManaged
  outputPersisted := true
  executionId := ⟨7⟩
  tokenUsage := some usage

/-- A usage with a nested block. -/
def nestedUsage : TokenUsage where
  inputTokens := some 12
  costUsd := some halfBits
  raw := [(pyStr "a",.arr [.int (-3),.obj [(pyStr "é",.float halfBits)],.null]),(pyStr "b",.str (pyStr "x\ny"))]

/-- An interpreter of a thousand frames, which loads rows a few calls deeper than it
builds usages. -/
def sampleInterpreter : Interpreter where
  building := ⟨990,3,2,2⟩
  thawing := ⟨990,3,2,2⟩
  loading := ⟨980,3,2,2⟩
  encodes _ := true
  decodes _ := true

/-- It is loaded back. -/
theorem token_usage_survives_nested :
    ∃ db',saveText sampleCodec sampleInterpreter (usageExecution nestedUsage) 0 Db.empty=.ok db' ∧
      LoadedBack ⟨1⟩ ⟨7⟩ nestedUsage db' := by
  have hsave : ∃ d,save { usageExecution nestedUsage with tokenUsage := none } 0 Db.empty=.ok d := ⟨_,rfl⟩
  obtain ⟨d,hd⟩ := hsave
  have hcost : ∀ c ∈ nestedUsage.costUsd,isFinite c=true := fun c hc => by
    cases hc
    decide +kernel
  have hdepth : Carried sampleCodec sampleInterpreter nestedUsage.raw :=
    ⟨by decide +kernel,by decide +kernel,rfl,rfl,by decide +kernel⟩
  exact (token_usage_survives WellFormed.empty rfl (by decide) hcost (by decide +kernel)
    (by decide +kernel) (by decide +kernel) hdepth).1 0 d hd

/-- A block with one integer. -/
def integerUsage (n : ℤ) : TokenUsage where
  raw := [(pyStr "n",.int n)]

/-- A block with the two surrogates of a pair as code points of their own. -/
def splitUsage : TokenUsage where
  raw := [(pyStr "s",.str [0xD83D,0xDE00])]

/-- Lists within lists. -/
def nest : ℕ → Json
  | 0 => .null
  | n+1 => .arr [nest n]

/-- A block with lists within lists. -/
def deepUsage (n : ℕ) : TokenUsage where
  raw := [(pyStr "d",nest n)]

/-- No integer from the power on is printable. -/
theorem intPrintable_power : intPrintable (10^4300)=false := by
  have hlong : ∀ k : ℕ,0 < k → ¬(Nat.toDigits 10 ((10 : ℤ)^k).natAbs).length ≤ k := by
    intro k hk
    rw [Nat.length_toDigits_le_iff (by omega) hk,Int.natAbs_pow]
    exact lt_irrefl _
  exact decide_eq_false (hlong intMaxStrDigits (by decide))

/-- What is saved of an execution with a usage is what its row takes of the usage. -/
theorem saveText_usageExecution (codec : FloatCodec) (interpreter : Interpreter) (usage : TokenUsage) :
    ∃ build : Option UsageRow → Db,
      (∀ written,∃ row ∈ (build written).executions,row.executionKey=⟨1⟩ ∧ row.tokenUsage=written) ∧
        saveText codec interpreter (usageExecution usage) 0 Db.empty=
          (insertTokenUsageText codec interpreter none (some usage)).map build := by
  have hupsert : ∃ base,upsertIdentity Db.empty ⟨1⟩ (usageExecution usage).callIdentity=.ok base ∧
      base.executions=[] := ⟨_,rfl,rfl⟩
  obtain ⟨base,hbase,hrows⟩ := hupsert
  have hnew : ∀ r∈(supersedePriorCurrent base ⟨1⟩ 0).executions,r.executionId≠(usageExecution usage).executionId := by
    intro r hr
    obtain ⟨old,hold,_⟩ := Db.mem_updateWhere.mp hr
    rw [hrows] at hold
    cases hold
  have hinsert : insertExecutionText codec interpreter (supersedePriorCurrent base ⟨1⟩ 0) ⟨1⟩ (usageExecution usage) 0=
      (insertTokenUsageText codec interpreter none (some usage)).map fun written =>
        (supersedePriorCurrent base ⟨1⟩ 0).appendRow
          (insertedRow (supersedePriorCurrent base ⟨1⟩ 0).nextId ⟨1⟩ (usageExecution usage) 0 [] written) rfl hnew := by
    unfold insertExecutionText
    rw [dif_pos hnew]
    show (insertTokenUsageText codec interpreter none (some usage) >>= fun written =>
      .ok ((supersedePriorCurrent base ⟨1⟩ 0).appendRow _ rfl hnew))=_
    cases insertTokenUsageText codec interpreter none (some usage) with
    | ok written => rfl
    | error e => rfl
  refine ⟨fun written => (supersedePriorCurrent base ⟨1⟩ 0).appendRow
      (insertedRow (supersedePriorCurrent base ⟨1⟩ 0).nextId ⟨1⟩ (usageExecution usage) 0 [] written) rfl hnew,
    fun written => ⟨insertedRow (supersedePriorCurrent base ⟨1⟩ 0).nextId ⟨1⟩ (usageExecution usage) 0 [] written,
      List.mem_append_right _ (List.mem_singleton_self _),rfl,rfl⟩,?_⟩
  show (upsertIdentity Db.empty ⟨1⟩ (usageExecution usage).callIdentity >>= fun db =>
    insertExecutionText codec interpreter (supersedePriorCurrent db ⟨1⟩ 0) ⟨1⟩ (usageExecution usage) 0)=_
  rw [hbase]
  exact hinsert

/-- A usage with an unprintable integer cannot be saved. -/
theorem saveText_integer {n : ℤ} (h : intPrintable n=false) :
    (integerUsage n).storable=true ∧ (integerUsage n).costUsd=none ∧
      wellFormed (.obj (integerUsage n).raw)=true ∧
      saveText sampleCodec sampleInterpreter (usageExecution (integerUsage n)) 0 Db.empty=.error unprintableInt := by
  have hunprintable : printable (.obj (integerUsage n).raw)=false := by
    show (true && (intPrintable n && true))=false
    rw [h]
    rfl
  have hrow : usageTextRow sampleInterpreter sampleCodec.floatRepr (integerUsage n)=.error unprintableInt := by
    have hheld : ∀ stack : Stack,stack.call=3 → stack.mapping=2 → 5 ≤ stack.left →
        stack.Holds (.obj (integerUsage n).raw) := by
      intro stack hcall hmapping hleft
      show max stack.call (stack.mapping+max stack.call 0) ≤ stack.left
      omega
    unfold usageTextRow
    rw [dumpsRaw_eq (hheld _ rfl rfl (by decide)) (hheld _ rfl rfl (by decide)) rfl,dumps,hunprintable]
    rfl
  obtain ⟨build,_,hsave⟩ := saveText_usageExecution sampleCodec sampleInterpreter (integerUsage n)
  refine ⟨rfl,rfl,rfl,?_⟩
  rw [hsave,insertTokenUsageText,hrow]
  rfl

/-- Every level takes the frames of a sequence. -/
theorem needs_nest (stack : Stack) (n : ℕ) : stack.needs (nest n)=max stack.call (n*stack.sequence+stack.call) := by
  induction n with
  | zero => simp [nest,Stack.needs]
  | succ n ih =>
    rw [nest,Stack.needs,Stack.needsItems,Stack.needsItems,ih,Nat.succ_mul]
    omega

/-- Every level is printable, without texts and without dicts. -/
theorem every_nest {p : Json → Bool} (hnull : p .null=true) (hlist : ∀ items,p (.arr items)=true) (n : ℕ) :
    every p (nest n)=true := by
  induction n with
  | zero => exact hnull
  | succ n ih => simp only [nest,every,hlist,everyItem,ih,Bool.and_self]

/-- A block of lists that `deep_freeze` gets through where the usage is built, and not
where its row is loaded: the row is saved, and no query of its key returns. -/
theorem saveText_deep {n : ℕ} (hbuilding : 2*n+5 ≤ 990) (hloading : 980 < 2*n+5) :
    (deepUsage n).storable=true ∧ (deepUsage n).costUsd=none ∧ wellFormed (.obj (deepUsage n).raw)=true ∧
      ∃ db',saveText sampleCodec sampleInterpreter (usageExecution (deepUsage n)) 0 Db.empty=.ok db' ∧
        ∀ all,findAll ⟨1⟩ db'≠.ok all := by
  have hneeds : ∀ stack : Stack,stack.call=3 → stack.mapping=2 → stack.sequence=2 →
      stack.needs (.obj (deepUsage n).raw)=2*n+5 := by
    intro stack hcall hmapping hsequence
    show max stack.call (stack.mapping+max (stack.needs (nest n)) 0)=2*n+5
    rw [needs_nest,hcall,hmapping,hsequence]
    omega
  have hheld : sampleInterpreter.building.Holds (.obj (deepUsage n).raw) := by
    unfold Stack.Holds
    rw [hneeds _ rfl rfl rfl]
    exact hbuilding
  have hfields : ∀ {p : Json → Bool},p (.obj (deepUsage n).raw)=true → p .null=true →
      (∀ items,p (.arr items)=true) → every p (.obj (deepUsage n).raw)=true := by
    intro p hdict hnull hlist
    show (p (.obj (deepUsage n).raw) && (every p (nest n) && true))=true
    rw [hdict,every_nest hnull hlist]
    rfl
  have hread : readable (.obj (deepUsage n).raw)=true := hfields rfl rfl fun _ => rfl
  obtain ⟨hdumps,hloads⟩ := loads_dumps sampleCodec hread
  generalize renderValue sampleCodec.floatRepr (.obj (deepUsage n).raw)=text at hdumps hloads
  have hrow : usageTextRow sampleInterpreter sampleCodec.floatRepr (deepUsage n)=
      .ok ⟨none,none,none,none,none,none,text⟩ := by
    unfold usageTextRow
    rw [dumpsRaw_eq hheld hheld rfl,hdumps]
    rfl
  have hcolumn : rawColumn sampleInterpreter sampleCodec.parseFloat text=.malformed text := by
    have hdecodes : sampleInterpreter.decodes text=true := rfl
    unfold rawColumn
    rw [if_pos hdecodes,hloads]
    cases hfreeze : deepFreeze sampleInterpreter.loading (.obj (deepUsage n).raw) with
    | error e => simp only [hfreeze]
    | ok frozen =>
      have hholds := (deepFreeze_ok_iff _ _).mp ⟨frozen,hfreeze⟩
      unfold Stack.Holds at hholds
      rw [hneeds _ rfl rfl rfl] at hholds
      exact absurd hholds (Nat.not_le.mpr hloading)
  obtain ⟨build,hbuild,hsave⟩ := saveText_usageExecution sampleCodec sampleInterpreter (deepUsage n)
  have hinsert : insertTokenUsageText sampleCodec sampleInterpreter none (some (deepUsage n))=
      .ok (some ⟨none,none,none,none,none,none,.malformed text⟩) := by
    simp only [insertTokenUsageText,hrow]
    show Except.ok (some (UsageTextRow.parsed sampleInterpreter sampleCodec.parseFloat _))=_
    unfold UsageTextRow.parsed
    rw [hcolumn]
  refine ⟨rfl,rfl,hfields rfl rfl fun _ => rfl,_,by rw [hsave,hinsert]; rfl,fun all hall => ?_⟩
  obtain ⟨row,hrow,hkey,husage⟩ := hbuild (some ⟨none,none,none,none,none,none,.malformed text⟩)
  obtain ⟨e,_,hload⟩ := (mem_of_forall₂ (forall₂_of_mapM hall)).2 row (List.mem_filter.mpr ⟨hrow,by simp [hkey]⟩)
  have hraises := loadExecution_tokenUsage hload
  rw [husage] at hraises
  cases hraises

/-- Three usages whose counters and costs fit and whose blocks are dicts: one cannot
be saved, one is saved and comes back with one code point for two, and one nests so deep
that it is saved and keeps its key from being read. -/
theorem token_usage_lost :
    ((integerUsage (10^4300)).storable=true ∧ (integerUsage (10^4300)).costUsd=none ∧
      wellFormed (.obj (integerUsage (10^4300)).raw)=true ∧
      saveText sampleCodec sampleInterpreter (usageExecution (integerUsage (10^4300))) 0 Db.empty=
        .error unprintableInt) ∧
    (splitUsage.storable=true ∧ splitUsage.costUsd=none ∧ wellFormed (.obj splitUsage.raw)=true ∧
      ∃ db' e u,saveText sampleCodec sampleInterpreter (usageExecution splitUsage) 0 Db.empty=.ok db' ∧
        findCurrent ⟨1⟩ db'=.ok (some e) ∧ e.tokenUsage=some u ∧ u.raw=[(pyStr "s",.str [0x1F600])] ∧
        u≠splitUsage) ∧
    (deepUsage 490).storable=true ∧ (deepUsage 490).costUsd=none ∧
      wellFormed (.obj (deepUsage 490).raw)=true ∧
      ∃ db',saveText sampleCodec sampleInterpreter (usageExecution (deepUsage 490)) 0 Db.empty=.ok db' ∧
        ∀ all,findAll ⟨1⟩ db'≠.ok all := by
  have hsaved : ∃ db' e u,saveText sampleCodec sampleInterpreter (usageExecution splitUsage) 0 Db.empty=.ok db' ∧
      findCurrent ⟨1⟩ db'=.ok (some e) ∧ e.tokenUsage=some u ∧ u.raw=[(pyStr "s",.str [0x1F600])] :=
    ⟨_,_,_,rfl,rfl,rfl,rfl⟩
  refine ⟨saveText_integer intPrintable_power,⟨rfl,rfl,by decide,?_⟩,saveText_deep (by decide) (by decide)⟩
  obtain ⟨db',e,u,hsave,hfind,husage,hraw⟩ := hsaved
  refine ⟨db',e,u,hsave,hfind,husage,hraw,fun heq => ?_⟩
  rw [heq] at hraw
  injection hraw with hfirst
  injection hfirst with _ htext
  injection htext with htext
  exact absurd htext (by decide)

end GenericMlCache.UsageTexts
