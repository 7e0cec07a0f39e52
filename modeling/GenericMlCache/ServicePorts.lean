import GenericMlCache.CallAutomaton
import GenericMlCache.RepositoryCalls
import Mathlib.Data.List.AList

/-!
# The ports of the services

Every outbound call the services make, the outside world those calls act on,
and what each call may answer. Repository transactions and blob writes are
atomic. A fault raises and changes nothing; which calls may fault, and whether
the key lock excludes, are parameters of the meaning.
-/

namespace GenericMlCache.ServicePorts

open CallProgram PythonText ExecutionModel SqliteStore ExecutionQueries RepositoryCalls

/-- The blob store: bytes under keys. -/
abbrev BlobStore := AList fun _ : BlobKey => Bytes

/-- `get`: none for a missing blob. -/
def BlobStore.get (blobs : BlobStore) (key : BlobKey) : Option Bytes := blobs.lookup key

/-- `put`: the write replaces the blob in one step. -/
def BlobStore.put (blobs : BlobStore) (key : BlobKey) (content : Bytes) : BlobStore :=
  blobs.insert key content

/-- `remove`: a no-op for a missing blob. -/
def BlobStore.remove (blobs : BlobStore) (key : BlobKey) : BlobStore := blobs.erase key

@[simp] theorem BlobStore.get_empty (key : BlobKey) : BlobStore.get ∅ key=none := AList.lookup_empty key

/-- After a put, its key holds the content and every other key what it held. -/
@[simp] theorem BlobStore.get_put (blobs : BlobStore) (key key' : BlobKey) (content : Bytes) :
    (blobs.put key content).get key'=if key'=key then some content else blobs.get key' := by
  unfold get put
  by_cases h : key'=key
  · rw [if_pos h,h]
    exact AList.lookup_insert blobs
  · rw [if_neg h]
    exact AList.lookup_insert_ne h

/-- After a removal, its key holds nothing and every other key what it held. -/
@[simp] theorem BlobStore.get_remove (blobs : BlobStore) (key key' : BlobKey) :
    (blobs.remove key).get key'=if key'=key then none else blobs.get key' := by
  unfold get remove
  by_cases h : key'=key
  · rw [if_pos h,h]
    exact AList.lookup_erase key blobs
  · rw [if_neg h]
    exact AList.lookup_erase_ne h

/-- One event of the call journal. -/
structure JournalEntry where
  /-- The event. -/
  event : JournalEvent
  /-- The key of the call. -/
  executionKey : ExecutionKey
  /-- The client's name. -/
  client : PyStr
  /-- The model. -/
  model : PyStr
  /-- The effort. -/
  effort : PyStr
  /-- The session. -/
  sessionId : Option PyStr
deriving DecidableEq

/-- The outbound calls of the services, over the commands of the client port. -/
inductive Call (Command : Type) where
  | store (call : StoreCall)
  | blobGet (key : BlobKey)
  | blobPut (key : BlobKey) (content : Bytes)
  | blobRemove (key : BlobKey)
  | blobIsHealthy
  | ensureAvailableForContent
  | acquireKey (key : ExecutionKey)
  | releaseKey (key : ExecutionKey)
  | acquireShared
  | releaseShared
  | recordEvent (entry : JournalEntry)
  | deleteEventsForKey (key : ExecutionKey)
  | lastAccess
  | executionKeysForSession (sessionId : PyStr)
  | sessionIdsForTag (tag : PyStr)
  | runClient (command : Command)
  | newExecutionId
  | currentTime

/-- What each call returns. -/
def Call.Ret {Command : Type} : Call Command → Type
  | .store call => call.Ret
  | .blobGet _ => Option Bytes
  | .blobIsHealthy => Bool
  | .lastAccess => Option (List (ExecutionKey × Timestamp))
  | .executionKeysForSession _ => List ExecutionKey
  | .sessionIdsForTag _ => List PyStr
  | .runClient _ => ClientRunResult
  | .newExecutionId => ExecutionId
  | .currentTime => Timestamp
  | _ => Unit

/-- A service's program. -/
abbrev ServiceM (Command : Type) := Prog (Call Command) Call.Ret PyExc

/-- One call of a port. -/
abbrev ask {Command : Type} (call : Call Command) : ServiceM Command call.Ret := perform call

/-- One method of the repository. -/
abbrev store {Command : Type} (call : StoreCall) : ServiceM Command call.Ret := ask (.store call)

/-- Threads of any process, told apart by a number. -/
abbrev ThreadId := ℕ

/-- Everything outside the services. -/
structure World where
  /-- The execution database. -/
  db : Db
  /-- The blob store. -/
  blobs : BlobStore
  /-- The call journal. -/
  journal : List JournalEntry
  /-- Every execution id generated so far. -/
  minted : List ExecutionId
  /-- The key locks that threads are in, an entry for each nested acquire. -/
  held : List (ThreadId × ExecutionKey)

/-- A new store. -/
def World.empty : World := ⟨Db.empty,∅,[],[],[]⟩

/-- Whether the key lock excludes. It degrades to unlocked on a timeout. -/
inductive LockMode where
  | exclusive | unlocked
deriving DecidableEq

/-- The thread may pass the key lock: no other thread is in it, or the lock is
degraded. The holder itself may enter again. -/
def mayAcquire (locks : LockMode) (thread : ThreadId) (key : ExecutionKey) (w : World) : Prop :=
  locks=.exclusive → ∀ holding∈w.held,holding.2=key → holding.1=thread

instance (locks : LockMode) (thread : ThreadId) (key : ExecutionKey) (w : World) :
    Decidable (mayAcquire locks thread key w) := by unfold mayAcquire; infer_instance

/-- The errors that each call may raise by a fault of its port. -/
abbrev Faults (Command : Type) := Call Command → PyExc → Prop

/-- No port faults. -/
def noFaults {Command : Type} : Faults Command := fun _ _ => False

/-- The calls of the blob store. -/
def isBlobCall {Command : Type} : Call Command → Bool
  | .blobGet _ | .blobPut _ _ | .blobRemove _ | .blobIsHealthy | .ensureAvailableForContent => true
  | _ => false

/-- Only the blob store faults. -/
def blobFaults {Command : Type} : Faults Command := fun call _ => isBlobCall call=true

/-- Leaving a lock. -/
def isRelease {Command : Type} : Call Command → Bool
  | .releaseKey _ | .releaseShared => true
  | _ => false

/-- What each call of a thread may answer, and the world it leaves. -/
inductive Answers {Command : Type} (locks : LockMode) (faults : Faults Command) (thread : ThreadId) :
    (call : Call Command) → World → Except PyExc call.Ret → World → Prop where
  /-- A port faults, without effect. Leaving a lock does not raise. -/
  | fault {call : Call Command} {w : World} {e : PyExc} (hcall : isRelease call=false)
      (h : faults call e) :
      Answers locks faults thread call w (.error e) w
  /-- A transaction commits. -/
  | commit {w : World} {call : StoreCall} {a : call.Ret} {db : Db} (now : Timestamp)
      (h : transact now w.db call=.ok (a,db)) :
      Answers locks faults thread (.store call) w (.ok a) { w with db := db }
  /-- A transaction raises and is rolled back. -/
  | reject {w : World} {call : StoreCall} {e : PyExc} (now : Timestamp)
      (h : transact now w.db call=.error e) :
      Answers locks faults thread (.store call) w (.error e) w
  | blobGet {w : World} {key : BlobKey} :
      Answers locks faults thread (.blobGet key) w (.ok (w.blobs.get key)) w
  | blobPut {w : World} {key : BlobKey} {content : Bytes} :
      Answers locks faults thread (.blobPut key content) w (.ok ())
        { w with blobs := w.blobs.put key content }
  | blobRemove {w : World} {key : BlobKey} :
      Answers locks faults thread (.blobRemove key) w (.ok ())
        { w with blobs := w.blobs.remove key }
  | blobIsHealthy {w : World} (healthy : Bool) :
      Answers locks faults thread .blobIsHealthy w (.ok healthy) w
  | ensureAvailableForContent {w : World} :
      Answers locks faults thread .ensureAvailableForContent w (.ok ()) w
  | acquireKey {w : World} {key : ExecutionKey} (h : mayAcquire locks thread key w) :
      Answers locks faults thread (.acquireKey key) w (.ok ())
        { w with held := (thread,key)::w.held }
  | releaseKey {w : World} {key : ExecutionKey} :
      Answers locks faults thread (.releaseKey key) w (.ok ())
        { w with held := w.held.erase (thread,key) }
  | acquireShared {w : World} : Answers locks faults thread .acquireShared w (.ok ()) w
  | releaseShared {w : World} : Answers locks faults thread .releaseShared w (.ok ()) w
  | recordEvent {w : World} {entry : JournalEntry} :
      Answers locks faults thread (.recordEvent entry) w (.ok ())
        { w with journal := w.journal ++ [entry] }
  | deleteEventsForKey {w : World} {key : ExecutionKey} :
      Answers locks faults thread (.deleteEventsForKey key) w (.ok ())
        { w with journal := w.journal.filter fun entry => decide (entry.executionKey≠key) }
  | lastAccess {w : World} (answer : Option (List (ExecutionKey × Timestamp))) :
      Answers locks faults thread .lastAccess w (.ok answer) w
  | executionKeysForSession {w : World} {sessionId : PyStr} (keys : List ExecutionKey) :
      Answers locks faults thread (.executionKeysForSession sessionId) w (.ok keys) w
  | sessionIdsForTag {w : World} {tag : PyStr} (sessionIds : List PyStr) :
      Answers locks faults thread (.sessionIdsForTag tag) w (.ok sessionIds) w
  /-- The client may return any result and raise any error. -/
  | runClient {w : World} {command : Command} (result : Except PyExc ClientRunResult) :
      Answers locks faults thread (.runClient command) w result w
  /-- A generated id is new. -/
  | newExecutionId {w : World} (id : ExecutionId) (h : id∉w.minted) :
      Answers locks faults thread .newExecutionId w (.ok id) { w with minted := id::w.minted }
  | currentTime {w : World} (now : Timestamp) :
      Answers locks faults thread .currentTime w (.ok now) w

section Meaning
variable {Command : Type} {locks : LockMode} {faults : Faults Command} {thread : ThreadId}

/-- A repository call's answer is its transaction's, where its port does not fault. -/
theorem answers_store {call : StoreCall} {w w' : World} {r : Except PyExc call.Ret}
    (h : Answers locks faults thread (.store call : Call Command) w r w') :
    (∃ now a db,transact now w.db call=.ok (a,db) ∧ r=.ok a ∧ w'={ w with db := db }) ∨
      ∃ e,r=.error e ∧ w'=w ∧ (faults (.store call) e ∨ ∃ now,transact now w.db call=.error e) := by
  cases h with
  | fault _ h => exact Or.inr ⟨_,rfl,rfl,Or.inl h⟩
  | commit now h => exact Or.inl ⟨now,_,_,h,rfl,rfl⟩
  | reject now h => exact Or.inr ⟨_,rfl,rfl,Or.inr ⟨now,h⟩⟩

/-- A call that raised left the world as it was, whatever raised. -/
theorem answers_error {call : Call Command} {w w' : World} {e : PyExc}
    (h : Answers locks faults thread call w (.error e) w') : w'=w := by
  cases h <;> rfl

end Meaning

section Handlers
variable {Command : Type}

/-- Answer every call without a fault: at one clock reading, with one client
outcome, and minting one id. A held lock and a spent id block. -/
def answerWith (locks : LockMode) (thread : ThreadId) (now : Timestamp)
    (client : Except PyExc ClientRunResult) (fresh : ExecutionId) :
    Handler (Call Command) Call.Ret PyExc World
  | .store call,w =>
    match transact now w.db call with
    | .ok (a,db) => some (.ok a,{ w with db := db })
    | .error e => some (.error e,w)
  | .blobGet key,w => some (.ok (w.blobs.get key),w)
  | .blobPut key content,w => some (.ok (),{ w with blobs := w.blobs.put key content })
  | .blobRemove key,w => some (.ok (),{ w with blobs := w.blobs.remove key })
  | .blobIsHealthy,w => some (.ok true,w)
  | .ensureAvailableForContent,w => some (.ok (),w)
  | .acquireKey key,w =>
    if mayAcquire locks thread key w then some (.ok (),{ w with held := (thread,key)::w.held })
    else none
  | .releaseKey key,w =>
    some (.ok (),{ w with held := w.held.erase (thread,key) })
  | .acquireShared,w => some (.ok (),w)
  | .releaseShared,w => some (.ok (),w)
  | .recordEvent entry,w => some (.ok (),{ w with journal := w.journal ++ [entry] })
  | .deleteEventsForKey key,w =>
    some (.ok (),{ w with
      journal := w.journal.filter fun entry => decide (entry.executionKey≠key) })
  | .lastAccess,w => some (.ok none,w)
  | .executionKeysForSession _,w => some (.ok [],w)
  | .sessionIdsForTag _,w => some (.ok [],w)
  | .runClient _,w => some (client,w)
  | .newExecutionId,w =>
    if fresh∈w.minted then none else some (.ok fresh,{ w with minted := fresh::w.minted })
  | .currentTime,w => some (.ok now,w)

/-- Chosen answers are answers that the ports may give. -/
theorem answerWith_respects {locks : LockMode} {faults : Faults Command} {thread : ThreadId}
    (now : Timestamp) (client : Except PyExc ClientRunResult) (fresh : ExecutionId) :
    Handler.Respects (answerWith locks thread now client fresh)
      (Answers locks faults thread : Sem (Call Command) Call.Ret PyExc World) := by
  intro call w r w' h
  cases call with
  | store call =>
    simp only [answerWith] at h
    split at h
    next a db ht =>
      cases h
      exact .commit now ht
    next e ht =>
      cases h
      exact .reject now ht
  | acquireKey key =>
    simp only [answerWith] at h
    split at h
    next hfree =>
      cases h
      exact .acquireKey hfree
    next => exact nomatch h
  | newExecutionId =>
    simp only [answerWith] at h
    split at h
    next => exact nomatch h
    next hfresh =>
      cases h
      exact .newExecutionId fresh hfresh
  | blobGet key =>
    cases h
    exact .blobGet
  | blobPut key content =>
    cases h
    exact .blobPut
  | blobRemove key =>
    cases h
    exact .blobRemove
  | blobIsHealthy =>
    cases h
    exact .blobIsHealthy true
  | ensureAvailableForContent =>
    cases h
    exact .ensureAvailableForContent
  | releaseKey key =>
    cases h
    exact .releaseKey
  | acquireShared =>
    cases h
    exact .acquireShared
  | releaseShared =>
    cases h
    exact .releaseShared
  | recordEvent entry =>
    cases h
    exact .recordEvent
  | deleteEventsForKey key =>
    cases h
    exact .deleteEventsForKey
  | lastAccess =>
    cases h
    exact .lastAccess none
  | executionKeysForSession sessionId =>
    cases h
    exact .executionKeysForSession []
  | sessionIdsForTag tag =>
    cases h
    exact .sessionIdsForTag []
  | runClient command =>
    cases h
    exact .runClient client
  | currentTime =>
    cases h
    exact .currentTime now

/-- Let the ports fault with one error. Leaving a lock waits for another answer. -/
def faultWith (e : PyExc) : Handler (Call Command) Call.Ret PyExc World :=
  fun call w => if isRelease call=true then none else some (.error e,w)

/-- Faults are answers where the ports may fault so. -/
theorem faultWith_respects {locks : LockMode} {faults : Faults Command} {thread : ThreadId} {e : PyExc}
    (h : ∀ call,isRelease call=false → faults call e) :
    Handler.Respects (faultWith e : Handler (Call Command) Call.Ret PyExc World)
      (Answers locks faults thread : Sem (Call Command) Call.Ret PyExc World) := by
  intro call w r w' hanswer
  unfold faultWith at hanswer
  by_cases hrelease : isRelease call=true
  · rw [if_pos hrelease] at hanswer
    cases hanswer
  · rw [if_neg hrelease] at hanswer
    cases hanswer
    exact .fault (by simpa using hrelease) (h call (by simpa using hrelease))

end Handlers

end GenericMlCache.ServicePorts
