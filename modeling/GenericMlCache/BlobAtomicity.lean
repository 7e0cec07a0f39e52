import GenericMlCache.BlobFiles

/-!
# The blob store is atomic

The atomic store takes each call at one instant between its start and its return. Files
written aside and moved into place refine it: whatever is seen of threads at work on the
directory could be seen of callers of the atomic store, whoever fails or dies.
-/

namespace GenericMlCache.BlobAtomicity

open PythonText ExecutionModel ServicePorts LabelledRuns BlobFiles

/-- Where a call of the atomic store stands: not taken yet, or taken, with what its key
held then. -/
inductive Standing where
  | idle
  | pending (op : Op)
  | taken (op : Op) (found : Option Bytes)

/-- The atomic store and its callers. -/
structure Atomic (ι : Type) where
  /-- The contents under their keys. -/
  blobs : BlobStore
  /-- Where each caller stands. -/
  standing : ι → Standing

/-- A new atomic store. -/
def Atomic.empty {ι : Type} : Atomic ι := ⟨∅,fun _ => .idle⟩

/-- What a call makes of the store, all at once. -/
def effect : Op → BlobStore → BlobStore
  | .get _,blobs => blobs
  | .put key output,blobs => blobs.put (.other key) output
  | .remove key,blobs => blobs.remove (.other key)

/-- What a call returns that found this under its key. -/
def answer : Op → Option Bytes → Result
  | .get _,found => .content found
  | .put _ _,_ | .remove _,_ => .done

/-- One step of the atomic store. A call that returns was taken; one that raises was taken
or was not; one whose key is no blob key was not. -/
inductive AtomicStep {ι : Type} [DecidableEq ι] : Steps (Atomic ι) (Event ι) where
  | call {t : Atomic ι} (thread : ι) (op : Op) (h : t.standing thread=.idle) :
      AtomicStep t (some (.called thread op)) ⟨t.blobs,Function.update t.standing thread (.pending op)⟩
  | take {t : Atomic ι} (thread : ι) {op : Op} (h : t.standing thread=.pending op) :
      AtomicStep t none ⟨effect op t.blobs,
        Function.update t.standing thread (.taken op (t.blobs.get (.other op.key)))⟩
  | ret {t : Atomic ι} (thread : ι) {op : Op} {found : Option Bytes} (h : t.standing thread=.taken op found) :
      AtomicStep t (some (.returned thread (answer op found))) ⟨t.blobs,Function.update t.standing thread .idle⟩
  | fail {t : Atomic ι} (thread : ι) {result : Result} (h : t.standing thread≠.idle)
      (hresult : result.isFailure=true) :
      AtomicStep t (some (.returned thread result)) ⟨t.blobs,Function.update t.standing thread .idle⟩
  | refuse {t : Atomic ι} (thread : ι) {op : Op} (h : t.standing thread=.pending op)
      (hkey : isBlobKey op.key=false) :
      AtomicStep t (some (.returned thread .valueError)) ⟨t.blobs,Function.update t.standing thread .idle⟩
  | die {t : Atomic ι} (thread : ι) (h : t.standing thread≠.idle) :
      AtomicStep t (some (.died thread)) ⟨t.blobs,Function.update t.standing thread .idle⟩

section Owners
variable {ι : Type}

/-- No file has two names, a scratch file has one owner, and what is read is no scratch file. -/
structure Owned (d : Directory) (phase : ι → Phase) : Prop where
  /-- Every name leads to an inode that was made. -/
  linked : ∀ name inode,d.entries name=some inode → inode < d.nextInode
  /-- An inode has one name. -/
  single : ∀ name name' inode,d.entries name=some inode → d.entries name'=some inode → name=name'
  /-- A scratch file was drawn, and leads to the inode its thread made. -/
  owner : ∀ p name file,(phase p).scratch?=some (name,file) → isScratchName name=true ∧ name∈d.drawn ∧
    ∀ inode,file=some inode → d.entries name=some inode
  /-- Two threads have different scratch names. -/
  apart : ∀ p q name file file',(phase p).scratch?=some (name,file) → (phase q).scratch?=some (name,file') → p=q
  /-- What a thread reads was made, and has no scratch name. -/
  read : ∀ p inode,(phase p).reads?=some inode → inode < d.nextInode ∧
    ∀ name,d.entries name=some inode → isScratchName name=false

/-- Nobody is at work on a new directory. -/
theorem Owned.empty : Owned Directory.empty (fun _ : ι => .idle) where
  linked _ _ h := nomatch h
  single _ _ _ h := nomatch h
  owner _ _ _ h := nomatch h
  apart _ _ _ _ _ h := nomatch h
  read _ _ h := nomatch h

variable {d : Directory} {phase : ι → Phase}

/-- Names only taken away, none that another thread owns a file under. -/
theorem Owned.fewer (h : Owned d phase) {entries : PyStr → Option Inode} (content : Inode → Bytes)
    (hsub : ∀ name inode,entries name=some inode → d.entries name=some inode)
    (hkeep : ∀ p name inode,(phase p).scratch?=some (name,some inode) → entries name=d.entries name) :
    Owned ⟨entries,content,d.nextInode,d.drawn⟩ phase where
  linked name inode he := h.linked name inode (hsub name inode he)
  single name name' inode he he' := h.single name name' inode (hsub _ _ he) (hsub _ _ he')
  owner p name file hp := by
    obtain ⟨hname,hdrawn,hentry⟩ := h.owner p name file hp
    refine ⟨hname,hdrawn,?_⟩
    rintro inode rfl
    exact (hkeep p name inode hp).trans (hentry inode rfl)
  apart := h.apart
  read p inode hp := by
    obtain ⟨hbelow,hnames⟩ := h.read p inode hp
    exact ⟨hbelow,fun name he => hnames name (hsub name inode he)⟩

/-- A name is taken away that no thread has a scratch file under. -/
theorem Owned.unlink (h : Owned d phase) {name : PyStr}
    (hfree : ∀ p inode,(phase p).scratch?≠some (name,some inode)) : Owned (d.unlink name) phase := by
  refine h.fewer d.content (fun name' inode he => ?_) fun p name' inode hp => ?_
  · by_cases hsame : name'=name
    · rw [hsame,Function.update_self] at he
      exact nomatch he
    · rwa [Function.update_of_ne hsame] at he
  · refine Function.update_of_ne (fun hsame => ?_) _ _
    exact hfree p inode (hsame ▸ hp)

variable [DecidableEq ι] {thread : ι} {next : Phase}

/-- A thread that takes no new scratch file goes on with the directory as it is. -/
theorem Owned.still (h : Owned d phase)
    (hscratch : ∀ name file,next.scratch?=some (name,file) →
      ∃ file',(phase thread).scratch?=some (name,file') ∧ (file=none ∨ file=file'))
    (hread : ∀ inode,next.reads?=some inode → inode < d.nextInode ∧
      ∀ name,d.entries name=some inode → isScratchName name=false) :
    Owned d (Function.update phase thread next) where
  linked := h.linked
  single := h.single
  owner p name file hp := by
    by_cases hsame : p=thread
    · subst hsame
      rw [Function.update_self] at hp
      obtain ⟨file',hold,hfile⟩ := hscratch name file hp
      obtain ⟨hname,hdrawn,hentry⟩ := h.owner p name file' hold
      refine ⟨hname,hdrawn,fun inode hinode => ?_⟩
      rcases hfile with rfl | rfl
      · exact nomatch hinode
      · exact hentry inode hinode
    · rw [Function.update_of_ne hsame] at hp
      exact h.owner p name file hp
  apart p q name file file' hp hq := by
    -- Whoever owns a name now owned it before.
    have hback : ∀ r file,(Function.update phase thread next r).scratch?=some (name,file) →
        ∃ file',(phase r).scratch?=some (name,file') := by
      intro r file hr
      by_cases hsame : r=thread
      · subst hsame
        rw [Function.update_self] at hr
        obtain ⟨file',hold,_⟩ := hscratch name file hr
        exact ⟨file',hold⟩
      · rw [Function.update_of_ne hsame] at hr
        exact ⟨file,hr⟩
    obtain ⟨_,hp'⟩ := hback p file hp
    obtain ⟨_,hq'⟩ := hback q file' hq
    exact h.apart p q name _ _ hp' hq'
  read p inode hp := by
    by_cases hsame : p=thread
    · subst hsame
      rw [Function.update_self] at hp
      exact hread inode hp
    · rw [Function.update_of_ne hsame] at hp
      exact h.read p inode hp

/-- A new scratch file has one owner. -/
theorem Owned.create (h : Owned d phase) {key name : PyStr} {bytes rest : Bytes}
    (hname : isScratchName name=true) (hnew : name∉d.drawn) (hfree : d.entries name=none) :
    Owned (d.create name) (Function.update phase thread (.writing key bytes name d.nextInode rest)) := by
  have hentry : ∀ name' inode,(d.create name).entries name'=some inode →
      (name'=name ∧ inode=d.nextInode) ∨ d.entries name'=some inode := by
    intro name' inode he
    by_cases hsame : name'=name
    · subst hsame
      rw [Directory.create_entries,Function.update_self] at he
      exact .inl ⟨rfl,(Option.some.inj he).symm⟩
    · rw [Directory.create_entries,Function.update_of_ne hsame] at he
      exact .inr he
  have hold : ∀ name' inode,d.entries name'=some inode → (d.create name).entries name'=some inode := by
    intro name' inode he
    have hne : name'≠name := by
      rintro rfl
      rw [hfree] at he
      exact nomatch he
    rwa [Directory.create_entries,Function.update_of_ne hne]
  have hscratch : ∀ p name' file,
      (Function.update phase thread (.writing key bytes name d.nextInode rest) p).scratch?=some (name',file) →
      (p=thread ∧ name'=name ∧ file=some d.nextInode) ∨ (p≠thread ∧ (phase p).scratch?=some (name',file)) := by
    intro p name' file hp
    by_cases hsame : p=thread
    · subst hsame
      rw [Function.update_self] at hp
      cases hp
      exact .inl ⟨rfl,rfl,rfl⟩
    · rw [Function.update_of_ne hsame] at hp
      exact .inr ⟨hsame,hp⟩
  refine ⟨fun name' inode he => ?_,fun name' name'' inode he he' => ?_,fun p name' file hp => ?_,
    fun p q name' file file' hp hq => ?_,fun p inode hp => ?_⟩
  · rcases hentry name' inode he with ⟨_,rfl⟩ | he
    · exact Nat.lt_succ_self _
    · exact (h.linked name' inode he).trans (Nat.lt_succ_self _)
  · rcases hentry name' inode he with ⟨rfl,rfl⟩ | hin
    · rcases hentry name'' d.nextInode he' with ⟨rfl,_⟩ | hin'
      · rfl
      · exact absurd (h.linked name'' _ hin') (lt_irrefl _)
    · rcases hentry name'' inode he' with ⟨rfl,rfl⟩ | hin'
      · exact absurd (h.linked name' _ hin) (lt_irrefl _)
      · exact h.single name' name'' inode hin hin'
  · rcases hscratch p name' file hp with ⟨_,rfl,rfl⟩ | ⟨_,hp⟩
    · refine ⟨hname,List.mem_cons_self,fun inode hinode => ?_⟩
      cases hinode
      exact Function.update_self _ _ _
    · obtain ⟨hname',hdrawn,hkept⟩ := h.owner p name' file hp
      exact ⟨hname',List.mem_cons_of_mem _ hdrawn,fun inode hinode => hold name' inode (hkept inode hinode)⟩
  · rcases hscratch p name' file hp with ⟨hpt,hpn,_⟩ | ⟨_,hpold⟩
    · rcases hscratch q name' file' hq with ⟨hqt,_,_⟩ | ⟨_,hqold⟩
      · exact hpt.trans hqt.symm
      · exact absurd (hpn ▸ (h.owner q name' file' hqold).2.1) hnew
    · rcases hscratch q name' file' hq with ⟨_,hqn,_⟩ | ⟨_,hqold⟩
      · exact absurd (hqn ▸ (h.owner p name' file hpold).2.1) hnew
      · exact h.apart p q name' file file' hpold hqold
  · have hp' : (phase p).reads?=some inode := by
      by_cases hsame : p=thread
      · subst hsame
        rw [Function.update_self] at hp
        exact nomatch hp
      · rwa [Function.update_of_ne hsame] at hp
    obtain ⟨hbelow,hnames⟩ := h.read p inode hp'
    refine ⟨hbelow.trans (Nat.lt_succ_self _),fun name' he => ?_⟩
    rcases hentry name' inode he with ⟨_,rfl⟩ | he
    · exact absurd hbelow (lt_irrefl _)
    · exact hnames name' he

/-- The owner of a scratch file moves it to a name of its own. -/
theorem Owned.replace (h : Owned d phase) {scratch target : PyStr} {inode : Inode}
    (howner : (phase thread).scratch?=some (scratch,some inode)) (htarget : isScratchName target=false)
    (hscratch : ∀ name file,next.scratch?=some (name,file) → name=scratch ∧ file=none)
    (hread : next.reads?=none) : Owned (d.replace scratch target) (Function.update phase thread next) := by
  obtain ⟨hisScratch,hdrawn,hentry⟩ := h.owner thread scratch (some inode) howner
  have hfile : d.entries scratch=some inode := hentry inode rfl
  have hne : target≠scratch := by
    rintro rfl
    rw [hisScratch] at htarget
    exact nomatch htarget
  have hcases : ∀ name file,(d.replace scratch target).entries name=some file →
      (name=target ∧ file=inode) ∨ (name≠target ∧ name≠scratch ∧ d.entries name=some file) := by
    intro name file he
    rw [Directory.replace_entries] at he
    by_cases hsame : name=scratch
    · subst hsame
      rw [Function.update_self] at he
      exact nomatch he
    · rw [Function.update_of_ne hsame] at he
      by_cases htar : name=target
      · subst htar
        rw [Function.update_self,hfile] at he
        exact .inl ⟨rfl,(Option.some.inj he).symm⟩
      · rw [Function.update_of_ne htar] at he
        exact .inr ⟨htar,hsame,he⟩
  have hothers : ∀ p name file,(Function.update phase thread next p).scratch?=some (name,file) →
      (p=thread ∧ name=scratch ∧ file=none) ∨ (p≠thread ∧ (phase p).scratch?=some (name,file)) := by
    intro p name file hp
    by_cases hsame : p=thread
    · subst hsame
      rw [Function.update_self] at hp
      exact .inl ⟨rfl,hscratch name file hp⟩
    · rw [Function.update_of_ne hsame] at hp
      exact .inr ⟨hsame,hp⟩
  refine ⟨fun name file he => ?_,fun name name' file he he' => ?_,fun p name file hp => ?_,
    fun p q name file file' hp hq => ?_,fun p file hp => ?_⟩
  · rcases hcases name file he with ⟨_,rfl⟩ | ⟨_,_,he⟩
    · exact h.linked scratch file hfile
    · exact h.linked name file he
  · rcases hcases name file he with ⟨rfl,rfl⟩ | ⟨_,hns,hin⟩
    · rcases hcases name' file he' with ⟨rfl,_⟩ | ⟨_,hns',hin'⟩
      · rfl
      · exact absurd (h.single name' scratch file hin' hfile) hns'
    · rcases hcases name' file he' with ⟨_,rfl⟩ | ⟨_,_,hin'⟩
      · exact absurd (h.single name scratch file hin hfile) hns
      · exact h.single name name' file hin hin'
  · rcases hothers p name file hp with ⟨_,rfl,rfl⟩ | ⟨hother,hp⟩
    · exact ⟨hisScratch,hdrawn,fun _ hin => nomatch hin⟩
    · obtain ⟨hname,hdrawn',hkept⟩ := h.owner p name file hp
      refine ⟨hname,hdrawn',fun file' hfile' => ?_⟩
      have hns : name≠scratch := by
        rintro rfl
        exact hother (h.apart p thread name file _ hp howner)
      have hnt : name≠target := by
        rintro rfl
        rw [hname] at htarget
        exact nomatch htarget
      rw [Directory.replace_entries,Function.update_of_ne hns,Function.update_of_ne hnt]
      exact hkept file' hfile'
  · rcases hothers p name file hp with ⟨hpt,hpn,_⟩ | ⟨hother,hpold⟩
    · rcases hothers q name file' hq with ⟨hqt,_,_⟩ | ⟨hother',hqold⟩
      · exact hpt.trans hqt.symm
      · exact absurd (h.apart q thread scratch file' _ (hpn ▸ hqold) howner) hother'
    · rcases hothers q name file' hq with ⟨_,hqn,_⟩ | ⟨_,hqold⟩
      · exact absurd (h.apart p thread scratch file _ (hqn ▸ hpold) howner) hother
      · exact h.apart p q name file file' hpold hqold
  · have hp' : (phase p).reads?=some file := by
      by_cases hsame : p=thread
      · subst hsame
        rw [Function.update_self,hread] at hp
        exact nomatch hp
      · rwa [Function.update_of_ne hsame] at hp
    obtain ⟨hbelow,hnames⟩ := h.read p file hp'
    refine ⟨hbelow,fun name he => ?_⟩
    rcases hcases name file he with ⟨rfl,_⟩ | ⟨_,_,he⟩
    · exact htarget
    · exact hnames name he

/-- A key that may be used: it is valid and no scratch file has it for a name. -/
def Fit (key : PyStr) : Prop := isBlobKey key=true ∧ isScratchName key=false

/-- A step of a thread keeps the files owned. -/
theorem Owned.work (h : Owned d phase) {d' : Directory} (hw : Work d (phase thread) d' next)
    (hkey : ∀ op,(phase thread).op?=some op → isScratchName op.key=false) :
    Owned d' (Function.update phase thread next) := by
  -- A thread that is left with no scratch file and reads none.
  have hfree : ∀ {entries : PyStr → Option Inode} {content : Inode → Bytes},
      Owned ⟨entries,content,d.nextInode,d.drawn⟩ phase → next.scratch?=none → next.reads?=none →
      Owned ⟨entries,content,d.nextInode,d.drawn⟩ (Function.update phase thread next) := by
    intro entries content hold hscratch hreads
    refine hold.still (fun name file hs => ?_) (fun inode hr => ?_)
    · rw [hscratch] at hs
      exact nomatch hs
    · rw [hreads] at hr
      exact nomatch hr
  generalize hphase : phase thread=now at hw hkey
  cases hw with
  | missing | present | openFailed | whole | readFailed | makeFailed | abandoned | cleanFailed | cleanInterrupted
  | removeFailed | interrupted => exact hfree h rfl rfl
  | opened hfile =>
    refine h.still (fun name file hs => nomatch hs) (fun inode hr => ?_)
    cases hr
    refine ⟨h.linked _ _ hfile,fun name he => ?_⟩
    rw [h.single _ _ _ he hfile]
    exact hkey _ rfl
  | more n =>
    refine h.still (fun name file hs => nomatch hs) (fun inode hr => ?_)
    cases hr
    exact h.read thread _ (by rw [hphase]; rfl)
  | made hname hnew hempty => exact h.create hname hnew hempty
  | @wrote key scratch output rest inode n =>
    have hcontent : Owned (d.append inode (rest.take n)) phase :=
      h.fewer (d.append inode (rest.take n)).content (fun _ _ he => he) fun _ _ _ _ => rfl
    refine hcontent.still (fun name file hs => ?_) (fun inode hr => nomatch hr)
    cases hs
    exact ⟨_,by rw [hphase]; rfl,.inr rfl⟩
  | closed =>
    refine h.still (fun name file hs => ?_) (fun inode hr => nomatch hr)
    cases hs
    exact ⟨_,by rw [hphase]; rfl,.inr rfl⟩
  | writeFailed _ =>
    refine h.still (fun name file hs => ?_) (fun inode hr => nomatch hr)
    cases hs
    exact ⟨_,by rw [hphase]; rfl,.inl rfl⟩
  | replaced hfile =>
    exact h.replace (by rw [hphase]; rfl) (hkey _ rfl) (fun _ _ hs => nomatch hs) rfl
  | replacedLate hfile =>
    refine h.replace (by rw [hphase]; rfl) (hkey _ rfl) (fun name file hs => ?_) rfl
    cases hs
    exact ⟨rfl,rfl⟩
  | replaceFailed _ =>
    refine h.still (fun name file hs => ?_) (fun inode hr => nomatch hr)
    cases hs
    exact ⟨_,by rw [hphase]; rfl,.inl rfl⟩
  | @cleaned key scratch output result | @cleanedLate key scratch output result =>
    refine hfree (h.unlink fun p inode hp => ?_) rfl rfl
    have howner : p=thread := h.apart p thread scratch (some inode) none hp (by rw [hphase]; rfl)
    rw [howner,hphase] at hp
    exact nomatch hp
  | @removed key | @removedLate key =>
    refine hfree (h.unlink fun p inode hp => ?_) rfl rfl
    have hname := (h.owner p key (some inode) hp).1
    have hkeyName : isScratchName key=false := hkey _ rfl
    rw [hkeyName] at hname
    exact nomatch hname

end Owners

section Refinement
variable {ι : Type}

/-- The phase of a thread in the directory reflects where its call stands. -/
inductive Reflects (d : Directory) : Phase → Standing → Prop where
  | idle : Reflects d .idle .idle
  | checking {key : PyStr} (hk : Fit key) : Reflects d (.checking key) (.pending (.get key))
  | opening {key : PyStr} (hk : Fit key) : Reflects d (.opening key) (.pending (.get key))
  | reading {key : PyStr} {inode : Inode} {got : Bytes} (hk : Fit key) (hgot : got <+: d.content inode) :
      Reflects d (.reading key inode got) (.taken (.get key) (some (d.content inode)))
  | making {key : PyStr} {output : Bytes} (hk : Fit key) :
      Reflects d (.making key output) (.pending (.put key output))
  | writing {key scratch : PyStr} {output rest : Bytes} {inode : Inode} (hk : Fit key)
      (hwritten : d.content inode ++ rest=output) :
      Reflects d (.writing key output scratch inode rest) (.pending (.put key output))
  | replacing {key scratch : PyStr} {output : Bytes} {inode : Inode} (hk : Fit key)
      (hwritten : d.content inode=output) :
      Reflects d (.replacing key output scratch inode) (.pending (.put key output))
  | cleaning {key scratch : PyStr} {output : Bytes} {result : Result} {standing : Standing} (hk : Fit key)
      (hstanding : standing≠.idle) (hresult : result.isFailure=true) :
      Reflects d (.cleaning key output scratch result) standing
  | unlinking {key : PyStr} (hk : Fit key) : Reflects d (.unlinking key) (.pending (.remove key))
  | answered {op op' : Op} {found : Option Bytes} {result : Result} (h : result=answer op found) :
      Reflects d (.returning op' result) (.taken op found)
  | failed {op : Op} {result : Result} {standing : Standing} (hstanding : standing≠.idle)
      (hresult : result.isFailure=true) : Reflects d (.returning op result) standing
  | refused {op : Op} (hk : isBlobKey op.key=false) : Reflects d (.returning op .valueError) (.pending op)

/-- The directory and its threads refine the atomic store and its callers. -/
structure Refines (s : Root ι) (t : Atomic ι) : Prop where
  /-- Names and scratch files are owned. -/
  owned : Owned s.directory s.phase
  /-- A key has the content that its name leads to. -/
  blobs : ∀ key,isScratchName key=false →
    t.blobs.get (.other key)=(s.directory.entries key).map s.directory.content
  /-- Every thread stands where its caller does. -/
  reflects : ∀ p,Reflects s.directory (s.phase p) (t.standing p)

/-- New stores, with nobody at work. -/
theorem Refines.empty : Refines (Root.empty : Root ι) Atomic.empty where
  owned := Owned.empty
  blobs _ _ := BlobStore.get_empty _
  reflects _ := .idle

/-- What reflects a call does so in any directory that keeps the files it is at. -/
theorem Reflects.frame {d d' : Directory} {phase : Phase} {standing : Standing} (h : Reflects d phase standing)
    (hreads : ∀ inode,phase.reads?=some inode → d'.content inode=d.content inode)
    (hwrites : ∀ name inode,phase.scratch?=some (name,some inode) → d'.content inode=d.content inode) :
    Reflects d' phase standing := by
  cases h with
  | idle => exact .idle
  | checking hk => exact .checking hk
  | opening hk => exact .opening hk
  | @reading key inode got hk hgot =>
    have hsame := hreads inode rfl
    rw [← hsame] at hgot ⊢
    exact .reading hk hgot
  | making hk => exact .making hk
  | writing hk hwritten => exact .writing hk (by rw [hwrites _ _ rfl]; exact hwritten)
  | replacing hk hwritten => exact .replacing hk (by rw [hwrites _ _ rfl]; exact hwritten)
  | cleaning hk hstanding hresult => exact .cleaning hk hstanding hresult
  | unlinking hk => exact .unlinking hk
  | answered h => exact .answered h
  | failed hstanding hresult => exact .failed hstanding hresult
  | refused hk => exact .refused hk

/-- A call at work stands somewhere, and its key may be used. -/
theorem Reflects.fit {d : Directory} {phase : Phase} {standing : Standing} (h : Reflects d phase standing)
    {op : Op} (hop : phase.op?=some op) : standing≠.idle ∧ Fit op.key := by
  cases h with
  | idle | answered | failed | refused => exact nomatch hop
  | cleaning hk hstanding =>
    cases hop
    exact ⟨hstanding,hk⟩
  | checking hk | opening hk | reading hk | making hk | writing hk | replacing hk | unlinking hk =>
    cases hop
    exact ⟨Standing.noConfusion,hk⟩

variable [DecidableEq ι]

/-- One thread moves on, and the atomic store with it. -/
theorem Refines.move {s : Root ι} {t t' : Atomic ι} {thread : ι} {d' : Directory} {next : Phase} (h : Refines s t)
    (howned : Owned d' (Function.update s.phase thread next))
    (hblobs : ∀ key,isScratchName key=false → t'.blobs.get (.other key)=(d'.entries key).map d'.content)
    (hothers : ∀ q,q≠thread → t'.standing q=t.standing q)
    (hreflects : Reflects d' next (t'.standing thread))
    (hreads : ∀ q inode,q≠thread → (s.phase q).reads?=some inode → d'.content inode=s.directory.content inode)
    (hwrites : ∀ q name inode,q≠thread → (s.phase q).scratch?=some (name,some inode) →
      d'.content inode=s.directory.content inode) :
    Refines ⟨d',Function.update s.phase thread next⟩ t' where
  owned := howned
  blobs := hblobs
  reflects p := by
    dsimp only
    by_cases hsame : p=thread
    · subst hsame
      rw [Function.update_self]
      exact hreflects
    · rw [Function.update_of_ne hsame,hothers p hsame]
      exact (h.reflects p).frame (fun inode => hreads p inode hsame) fun name inode => hwrites p name inode hsame

/-- A thread moves on in the directory as it is, and the atomic store stays. -/
theorem Refines.still {s : Root ι} {t : Atomic ι} {thread : ι} {next : Phase} (h : Refines s t)
    (hw : Work s.directory (s.phase thread) s.directory next)
    (hkey : ∀ op,(s.phase thread).op?=some op → isScratchName op.key=false)
    (hreflects : Reflects s.directory next (t.standing thread)) :
    Refines ⟨s.directory,Function.update s.phase thread next⟩ t :=
  h.move (h.owned.work hw hkey) h.blobs (fun _ _ => rfl) hreflects (fun _ _ _ _ => rfl) fun _ _ _ _ _ => rfl

/-- A thread that gives up is answered by a call that fails. -/
theorem Refines.failing {s : Root ι} {t : Atomic ι} {thread : ι} {op : Op} {result : Result} (h : Refines s t)
    (hw : Work s.directory (s.phase thread) s.directory (.returning op result))
    (hkey : ∀ op,(s.phase thread).op?=some op → isScratchName op.key=false)
    (hstanding : t.standing thread≠.idle) (hresult : result.isFailure=true) :
    Refines ⟨s.directory,Function.update s.phase thread (.returning op result)⟩ t :=
  h.still hw hkey (.failed hstanding hresult)

/-- The atomic store takes the call of one thread. -/
def took (t : Atomic ι) (thread : ι) (op : Op) : Atomic ι :=
  ⟨effect op t.blobs,Function.update t.standing thread (.taken op (t.blobs.get (.other op.key)))⟩

/-- A call is taken where it stood to be. -/
theorem run_take {t : Atomic ι} {thread : ι} {op : Op} (h : t.standing thread=.pending op) :
    Run AtomicStep t [] (took t thread op) := .quiet (.take thread h)

/-- A thread moves on as the atomic store takes its call. -/
theorem Refines.taking {s : Root ι} {t : Atomic ι} {thread : ι} {op : Op} {d' : Directory} {next : Phase}
    (h : Refines s t) (hw : Work s.directory (s.phase thread) d' next)
    (hkey : ∀ op,(s.phase thread).op?=some op → isScratchName op.key=false)
    (hcontent : d'.content=s.directory.content)
    (hblobs : ∀ key,isScratchName key=false →
      (effect op t.blobs).get (.other key)=(d'.entries key).map s.directory.content)
    (hreflects : Reflects d' next (.taken op (t.blobs.get (.other op.key)))) :
    Refines ⟨d',Function.update s.phase thread next⟩ (took t thread op) := by
  refine h.move (h.owned.work hw hkey) ?_ (fun q hq => Function.update_of_ne hq _ _) ?_
    (fun _ _ _ _ => by rw [hcontent]) fun _ _ _ _ _ => by rw [hcontent]
  · rw [hcontent]
    exact hblobs
  · unfold took
    dsimp only
    rw [Function.update_self]
    exact hreflects

/-- Reading on, what was read is the beginning of the file. -/
theorem prefix_more {got bytes : Bytes} (h : got <+: bytes) (n : ℕ) :
    got ++ (bytes.drop got.length).take n <+: bytes := by
  obtain ⟨rest,rfl⟩ := h
  rw [List.drop_left]
  exact ⟨rest.drop n,by rw [List.append_assoc,List.take_append_drop]⟩

omit [DecidableEq ι] in
/-- Moving the scratch file puts what was written. -/
theorem blobs_replace {s : Root ι} {t : Atomic ι} {thread : ι} {key scratch : PyStr} {output : Bytes} {inode : Inode}
    (h : Refines s t) (hphase : s.phase thread=.replacing key output scratch inode)
    (hwritten : s.directory.content inode=output) {key' : PyStr} (hkey' : isScratchName key'=false) :
    (effect (.put key output) t.blobs).get (.other key')=
      ((s.directory.replace scratch key).entries key').map s.directory.content := by
  obtain ⟨hname,_,hentry⟩ := h.owned.owner thread scratch (some inode) (by rw [hphase]; rfl)
  have hne : key'≠scratch := by
    rintro rfl
    rw [hname] at hkey'
    exact nomatch hkey'
  rw [effect,BlobStore.get_put,Directory.replace_entries,Function.update_of_ne hne]
  by_cases hsame : key'=key
  · subst hsame
    rw [if_pos rfl,Function.update_self,hentry inode rfl,Option.map_some,hwritten]
  · rw [if_neg fun heq => hsame (BlobKey.other.inj heq),Function.update_of_ne hsame]
    exact h.blobs key' hkey'

omit [DecidableEq ι] in
/-- Taking a file away removes its blob. -/
theorem blobs_unlink {s : Root ι} {t : Atomic ι} {key key' : PyStr} (h : Refines s t)
    (hkey' : isScratchName key'=false) : (effect (.remove key) t.blobs).get (.other key')=
      ((s.directory.unlink key).entries key').map s.directory.content := by
  rw [effect,BlobStore.get_remove,Directory.unlink_entries]
  by_cases hsame : key'=key
  · subst hsame
    rw [if_pos rfl,Function.update_self]
    rfl
  · rw [if_neg fun heq => hsame (BlobKey.other.inj heq),Function.update_of_ne hsame]
    exact h.blobs key' hkey'

/-- A new scratch file is no blob. -/
theorem Refines.made {s : Root ι} {t : Atomic ι} {thread : ι} {key name : PyStr} {output : Bytes}
    (h : Refines s t) (hphase : s.phase thread=.making key output) (hk : Fit key)
    (hstanding : t.standing thread=.pending (.put key output)) (hname : isScratchName name=true)
    (hnew : name∉s.directory.drawn) (hfree : s.directory.entries name=none) :
    Refines ⟨s.directory.create name,
      Function.update s.phase thread (.writing key output name s.directory.nextInode output)⟩ t := by
  have hbelow : ∀ inode,inode < s.directory.nextInode →
      (s.directory.create name).content inode=s.directory.content inode := fun inode hlt =>
    Function.update_of_ne (Nat.ne_of_lt hlt) _ _
  have hw : Work s.directory (s.phase thread) (s.directory.create name)
      (.writing key output name s.directory.nextInode output) := by
    rw [hphase]
    exact .made hname hnew hfree
  have howned := h.owned.work hw fun op hop => by
    rw [hphase] at hop
    cases hop
    exact hk.2
  refine h.move howned (fun key' hkey' => ?_) (fun _ _ => rfl) ?_
    (fun q inode _ hq => hbelow inode (h.owned.read q inode hq).1) fun q name' inode _ hq =>
      hbelow inode (h.owned.linked name' inode ((h.owned.owner q name' _ hq).2.2 inode rfl))
  · have hne : key'≠name := by
      rintro rfl
      rw [hname] at hkey'
      exact nomatch hkey'
    rw [h.blobs key' hkey',Directory.create_entries,Function.update_of_ne hne]
    cases hfile : s.directory.entries key' with
    | none => rfl
    | some inode =>
      rw [Option.map_some,Option.map_some,hbelow inode (h.owned.linked key' inode hfile)]
  · rw [hstanding]
    refine .writing hk ?_
    rw [Directory.create_content,Function.update_self,List.nil_append]

/-- The file that is written has the scratch name and no other, so no blob changes. -/
theorem Refines.wrote {s : Root ι} {t : Atomic ι} {thread : ι} {key scratch : PyStr} {output rest : Bytes}
    {inode : Inode} (h : Refines s t) (hphase : s.phase thread=.writing key output scratch inode rest) (hk : Fit key)
    (hstanding : t.standing thread=.pending (.put key output))
    (hwritten : s.directory.content inode ++ rest=output) (n : ℕ) :
    Refines ⟨s.directory.append inode (rest.take n),
      Function.update s.phase thread (.writing key output scratch inode (rest.drop n))⟩ t := by
  have howner : (s.phase thread).scratch?=some (scratch,some inode) := by rw [hphase]; rfl
  obtain ⟨hname,_,hentry⟩ := h.owned.owner thread scratch _ howner
  have hfile := hentry inode rfl
  have hother : ∀ file,file≠inode →
      (s.directory.append inode (rest.take n)).content file=s.directory.content file := fun file hne =>
    Function.update_of_ne hne _ _
  have hw : Work s.directory (s.phase thread) (s.directory.append inode (rest.take n))
      (.writing key output scratch inode (rest.drop n)) := by
    rw [hphase]
    exact .wrote n
  have howned := h.owned.work hw fun op hop => by
    rw [hphase] at hop
    cases hop
    exact hk.2
  refine h.move howned (fun key' hkey' => ?_) (fun _ _ => rfl) ?_
    (fun q file _ hq => hother file ?_) fun q name' file hne hq => hother file ?_
  · rw [h.blobs key' hkey',Directory.append_entries]
    cases hentry' : s.directory.entries key' with
    | none => rfl
    | some file =>
      rw [Option.map_some,Option.map_some,hother file]
      rintro rfl
      rw [h.owned.single key' scratch file hentry' hfile,hname] at hkey'
      exact nomatch hkey'
  · rw [hstanding]
    refine .writing hk ?_
    rw [Directory.append_content,Function.update_self,List.append_assoc,List.take_append_drop]
    exact hwritten
  · rintro rfl
    have hnone := (h.owned.read q file hq).2 scratch hfile
    rw [hname] at hnone
    exact nomatch hnone
  · rintro rfl
    have hsame := h.owned.single name' scratch file ((h.owned.owner q name' _ hq).2.2 file rfl) hfile
    exact hne (h.owned.apart q thread scratch _ _ (hsame ▸ hq) howner)

/-- Without its scratch file a failed call leaves every blob as it is. -/
theorem Refines.cleared {s : Root ι} {t : Atomic ι} {thread : ι} {key scratch : PyStr} {output : Bytes}
    {result result' : Result} (h : Refines s t) (hphase : s.phase thread=.cleaning key output scratch result)
    (hw : Work s.directory (s.phase thread) (s.directory.unlink scratch) (.returning (.put key output) result'))
    (hkey : ∀ op,(s.phase thread).op?=some op → isScratchName op.key=false)
    (hstanding : t.standing thread≠.idle) (hresult : result'.isFailure=true) :
    Refines ⟨s.directory.unlink scratch,Function.update s.phase thread (.returning (.put key output) result')⟩ t := by
  have hname := (h.owned.owner thread scratch none (by rw [hphase]; rfl)).1
  refine h.move (h.owned.work hw hkey) (fun key' hkey' => ?_) (fun _ _ => rfl) (.failed hstanding hresult)
    (fun _ _ _ _ => rfl) fun _ _ _ _ _ => rfl
  have hother : key'≠scratch := by
    rintro rfl
    rw [hname] at hkey'
    exact nomatch hkey'
  rw [h.blobs key' hkey',Directory.unlink_entries,Function.update_of_ne hother]
  rfl

/-- A step of work is answered by the atomic store with at most the taking of its call. -/
theorem work_refines {s : Root ι} {t : Atomic ι} {thread : ι} {d' : Directory} {next : Phase} (h : Refines s t)
    (hw : Work s.directory (s.phase thread) d' next) :
    ∃ t',Run AtomicStep t [] t' ∧ Refines ⟨d',Function.update s.phase thread next⟩ t' := by
  have hreflects := h.reflects thread
  have hkey : ∀ op,(s.phase thread).op?=some op → isScratchName op.key=false := fun op hop =>
    (hreflects.fit hop).2.2
  have hall := hw
  generalize hphase : s.phase thread=phase at hw hreflects
  generalize hstanding : t.standing thread=standing at hreflects
  cases hw with
  | @missing key hnone =>
    cases hreflects with
    | checking hk =>
      refine ⟨_,run_take hstanding,h.taking hall hkey rfl h.blobs (.answered ?_)⟩
      have hfound := h.blobs key hk.2
      rw [hnone] at hfound
      exact (congrArg Result.content hfound).symm
  | present hfile =>
    cases hreflects with
    | checking hk =>
      exact ⟨t,.start,h.still hall hkey (hstanding ▸ .opening hk)⟩
  | @opened key inode hfile =>
    cases hreflects with
    | opening hk =>
      refine ⟨_,run_take hstanding,h.taking hall hkey rfl h.blobs ?_⟩
      have hfound := h.blobs key hk.2
      rw [hfile] at hfound
      have hstand : t.blobs.get (.other (Op.get key).key)=some (s.directory.content inode) := hfound
      rw [hstand]
      exact .reading hk (List.nil_prefix)
  | openFailed =>
    exact ⟨t,.start,h.failing hall hkey (h.reflects thread |>.fit (by rw [hphase]; rfl)).1 rfl⟩
  | more n =>
    cases hreflects with
    | reading hk hgot => exact ⟨t,.start,h.still hall hkey (hstanding ▸ .reading hk (prefix_more hgot n))⟩
  | @whole key inode got hlong =>
    cases hreflects with
    | reading hk hgot =>
      refine ⟨t,.start,h.still hall hkey (hstanding ▸ .answered ?_)⟩
      rw [hgot.eq_of_length_le hlong]
      rfl
  | readFailed | makeFailed | abandoned | cleanFailed | cleanInterrupted | removeFailed =>
    exact ⟨t,.start,h.failing hall hkey (h.reflects thread |>.fit (by rw [hphase]; rfl)).1 rfl⟩
  | interrupted hop _ =>
    exact ⟨t,.start,h.failing hall hkey (h.reflects thread |>.fit (by rw [hphase]; exact hop)).1 rfl⟩
  | made hname hnew hempty =>
    cases hreflects with
    | making hk => exact ⟨t,.start,h.made hphase hk hstanding hname hnew hempty⟩
  | wrote n =>
    cases hreflects with
    | writing hk hwritten => exact ⟨t,.start,h.wrote hphase hk hstanding hwritten n⟩
  | closed =>
    cases hreflects with
    | writing hk hwritten =>
      refine ⟨t,.start,h.still hall hkey (hstanding ▸ .replacing hk ?_)⟩
      rwa [List.append_nil] at hwritten
  | writeFailed hresult =>
    obtain ⟨hne,hk⟩ := (h.reflects thread).fit (by rw [hphase]; rfl)
    exact ⟨t,.start,h.still hall hkey (.cleaning hk hne hresult)⟩
  | replaced hfile =>
    cases hreflects with
    | replacing hk hwritten =>
      exact ⟨_,run_take hstanding,h.taking hall hkey rfl (fun _ => blobs_replace h hphase hwritten)
        (.answered rfl)⟩
  | replacedLate hfile =>
    cases hreflects with
    | replacing hk hwritten =>
      exact ⟨_,run_take hstanding,h.taking hall hkey rfl (fun _ => blobs_replace h hphase hwritten)
        (.cleaning hk Standing.noConfusion rfl)⟩
  | replaceFailed hresult =>
    obtain ⟨hne,hk⟩ := (h.reflects thread).fit (by rw [hphase]; rfl)
    exact ⟨t,.start,h.still hall hkey (.cleaning hk hne hresult)⟩
  | cleaned =>
    cases hreflects with
    | cleaning hk hne hresult => exact ⟨t,.start,h.cleared hphase hall hkey (hstanding ▸ hne) hresult⟩
  | cleanedLate =>
    cases hreflects with
    | cleaning hk hne hresult => exact ⟨t,.start,h.cleared hphase hall hkey (hstanding ▸ hne) rfl⟩
  | removed =>
    cases hreflects with
    | unlinking hk =>
      exact ⟨_,run_take hstanding,h.taking hall hkey rfl (fun _ => blobs_unlink h) (.answered rfl)⟩
  | removedLate =>
    cases hreflects with
    | unlinking hk =>
      exact ⟨_,run_take hstanding,h.taking hall hkey rfl (fun _ => blobs_unlink h) (.failed Standing.noConfusion rfl)⟩

/-- A call whose key no scratch file has for a name. -/
def Usable : Event ι → Prop
  | .called _ op => isScratchName op.key=false
  | _ => True

/-- The atomic store answers every step of the threads with what is seen of it. -/
theorem simulates : Simulates (fun s event s' => Step s event s' ∧ ∀ e,event=some e → Usable e)
    AtomicStep (Refines (ι := ι)) := by
  rintro s t event s' h ⟨hstep,husable⟩
  -- Between calls the directory stays, and the atomic store with it.
  have hbetween : ∀ {thread : ι} {next : Phase} {standing : Standing},next.scratch?=none → next.reads?=none →
      Reflects s.directory next standing →
      Refines ⟨s.directory,Function.update s.phase thread next⟩
        ⟨t.blobs,Function.update t.standing thread standing⟩ := by
    intro thread next standing hscratch hreads hreflects
    refine h.move (h.owned.still ?_ ?_) h.blobs (fun q hq => Function.update_of_ne hq _ _) ?_
      (fun _ _ _ _ => rfl) fun _ _ _ _ _ => rfl
    · rw [hscratch]
      exact fun _ _ hnone => nomatch hnone
    · rw [hreads]
      exact fun _ hnone => nomatch hnone
    · dsimp only
      rw [Function.update_self]
      exact hreflects
  have hidle : ∀ {thread : ι},s.phase thread≠.idle → t.standing thread≠.idle := by
    intro thread hne hstanding
    have hreflects := h.reflects thread
    rw [hstanding] at hreflects
    generalize hphase : s.phase thread=phase at hreflects hne
    cases hreflects with
    | idle => exact hne rfl
    | cleaning _ hnot => exact hnot rfl
    | failed hnot => exact hnot rfl
  cases hstep with
  | call thread op hphase =>
    have hstanding : t.standing thread=.idle := by
      have hreflects := h.reflects thread
      rw [hphase] at hreflects
      generalize t.standing thread=standing at hreflects
      cases hreflects
      rfl
    refine ⟨_,.seen (.call thread op hstanding),?_⟩
    by_cases hk : isBlobKey op.key=true
    · have hfit : Fit op.key := ⟨hk,husable _ rfl⟩
      cases op with
      | get key =>
        have hbegin : (Op.get key).begin=.checking key := if_pos hk
        rw [hbegin]
        exact hbetween rfl rfl (.checking hfit)
      | put key output =>
        have hbegin : (Op.put key output).begin=.making key output := if_pos hk
        rw [hbegin]
        exact hbetween rfl rfl (.making hfit)
      | remove key =>
        have hbegin : (Op.remove key).begin=.unlinking key := if_pos hk
        rw [hbegin]
        exact hbetween rfl rfl (.unlinking hfit)
    · have hbegin : op.begin=.returning op .valueError := if_neg hk
      rw [hbegin]
      exact hbetween rfl rfl (.refused (by simpa using hk))
  | work thread hw => exact work_refines h hw
  | ret thread hphase =>
    have hreflects := h.reflects thread
    rw [hphase] at hreflects
    generalize hstanding : t.standing thread=standing at hreflects
    cases hreflects with
    | answered hresult =>
      rw [hresult]
      exact ⟨_,.seen (.ret thread hstanding),hbetween rfl rfl .idle⟩
    | failed hne hresult =>
      exact ⟨_,.seen (.fail thread (by rw [hstanding]; exact hne) hresult),hbetween rfl rfl .idle⟩
    | refused hk => exact ⟨_,.seen (.refuse thread hstanding hk),hbetween rfl rfl .idle⟩
  | die thread hphase => exact ⟨_,.seen (.die thread (hidle hphase)),hbetween rfl rfl .idle⟩

/-- Whatever is seen of threads at work on the directory can be seen of callers of the
atomic store, and then every key holds there the whole content of its file. -/
theorem blob_store_atomic {trace : List (Event ι)} {s : Root ι} (h : Run Step Root.empty trace s)
    (husable : ∀ event∈trace,Usable event) :
    ∃ t : Atomic ι,Run AtomicStep Atomic.empty trace t ∧
      ∀ key,isScratchName key=false →
        t.blobs.get (.other key)=(s.directory.entries key).map s.directory.content := by
  obtain ⟨t,hrun,hrefines⟩ := simulates.run Refines.empty (h.restrict husable)
  exact ⟨t,hrun,hrefines.blobs⟩

/-- There are two of them. -/
local instance twoCallers : NeZero 2 := ⟨by decide⟩

/-- One thread asks for a key while another puts it, and again when it is put. -/
def askedTwice : List (Event (Fin 2)) :=
  [.called 0 (.put (pyStr "7_0a") [1,2]),.called 1 (.get (pyStr "7_0a")),.returned 1 (.content none),
    .returned 0 .done,.called 1 (.get (pyStr "7_0a")),.returned 1 (.content (some [1,2]))]

/-- The first answer is that there is nothing, the second the whole content. -/
theorem blob_store_atomic_twice : ∃ s : Root (Fin 2),∃ t : Atomic (Fin 2),
    Run Step Root.empty askedTwice s ∧ Run AtomicStep Atomic.empty askedTwice t ∧
    ∀ key,isScratchName key=false →
      t.blobs.get (.other key)=(s.directory.entries key).map s.directory.content := by
  have h1 : Run Step Root.empty _ _ := Run.seen (.call (0 : Fin 2) (.put (pyStr "7_0a") [1,2]) rfl)
  have h2 := h1.next (.work 0 (@Work.made _ _ (pyStr "tmpabcdefgh.tmp") _ rfl List.not_mem_nil rfl))
  have h3 := h2.next (.work 0 (.wrote 1))
  have h4 := h3.next (.call 1 (.get (pyStr "7_0a")) rfl)
  have h5 := h4.next (.work 1 (.missing rfl))
  have h6 := h5.next (.ret 1 rfl)
  have h7 := h6.next (.work 0 (.wrote 1))
  have h8 := h7.next (.work 0 .closed)
  have h9 := h8.next (.work 0 (.replaced rfl))
  have h10 := h9.next (.ret 0 rfl)
  have h11 := h10.next (.call 1 (.get (pyStr "7_0a")) rfl)
  have h12 := h11.next (.work 1 (.present rfl))
  have h13 := h12.next (.work 1 (.opened rfl))
  have h14 := h13.next (.work 1 (.more 2))
  have h15 := h14.next (.work 1 (.whole (by decide)))
  have h16 := h15.next (.ret 1 rfl)
  have husable : ∀ event∈askedTwice,Usable event :=
    List.forall_iff_forall_mem.mp ⟨rfl,rfl,trivial,trivial,rfl,trivial⟩
  have hasked : Run Step Root.empty askedTwice _ := h16
  obtain ⟨t,hrun,hblobs⟩ := blob_store_atomic hasked husable
  exact ⟨_,t,hasked,hrun,hblobs⟩

end Refinement

end GenericMlCache.BlobAtomicity
