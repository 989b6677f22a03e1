/-
  SubfileExchange.Client.Downloader

  `download_subfile` with everything it runs concurrently, as a state machine.
  The main task downloads the manifest entries one after the other
  (`download_chunk_file`): it fetches the chunk file, runs `check_availability`,
  creates the output file, and spawns one task per index of the loop, which it
  then joins in order. Each probe of `check_availability` and each spawned
  task is a thread of its own. The blocklist, the `chunks_to_download` map and
  the output files are shared by all of them.

  A step is one move of one thread, chosen by `Choice`: the main task's next
  move, the run of a pending probe, one pass of a task's loop
  (`attempt`), or the code a task runs once `download_chunk_and_write_to_file`
  returned. Everything the outside world decides is part of the choice: the
  replies of the endpoints (any status, any body, for any request), the draw of
  `choose`, and whether a file system call succeeds. A run is any sequence of
  choices, so the runs cover every interleaving. A task whose
  `download_chunk_file` returned early is never joined, and it keeps running.

  An HTTP exchange is one step, which comes with the reply: a response or a
  transport error. The client is `reqwest::Client::new()`, with no timeout, so a
  request that is never answered is not a reply the choice can name; in the
  model it is a step that never comes, and a run waiting on it is simply not
  extended.

  A probe is atomic: it reads no shared state, and the blocklist insert it may
  end with is read only by the next `check_availability`, which the main task
  starts after every probe has finished. A pass of a task's loop is atomic for
  the same reason, its write being made under the file's mutex.

  `log` records what the threads did (`Event`), for the statements about whole
  runs; no step reads it.
-/
import SubfileExchange.Client.Probe
import SubfileExchange.Client.Retry

namespace SubfileExchange

/-- What the downloader is configured with (`DownloaderArgs`), and the store
    and working directory it runs against. -/
structure DownloaderEnv where
  digest : Bytes → String
  store : IpfsStore
  ipfsHash : String
  staticEndpoints : List String
  outputDir : String
  freeQueryAuthToken : Option String
  chunkMaxRetry : Nat
  cwd : List String

/-- What a spawned task carries, fixed when it is spawned: the entry and index it
    was spawned for, the chunk file, where its output file resolves, and its
    request. -/
structure TaskSpec where
  file : Nat
  index : Nat
  chunkFile : ChunkFile
  path : List String
  request : DownloadRangeRequest
  deriving DecidableEq, Repr

/-- Where a task is. -/
inductive TaskPhase where
  /-- In the loop of `download_chunk_and_write_to_file`. -/
  | running
  /-- `download_chunk_and_write_to_file` returned `Ok` (`true`) or `Err`. -/
  | returned (ok : Bool)
  /-- The task's future returned, after updating the map or the blocklist. -/
  | finished (ok : Bool)
  /-- The task panicked (`auth_token.expect`). -/
  | panicked
  deriving DecidableEq, Repr

/-- A spawned task. -/
structure Task where
  spec : TaskSpec
  attempts : Nat
  phase : TaskPhase
  deriving DecidableEq, Repr

/-- Where `download_chunk_file` is, for the current manifest entry. -/
inductive FilePhase where
  /-- About to fetch the entry's chunk file. -/
  | fetch
  /-- `check_availability`: the copy of the blocklist, the probes not yet run,
      and the endpoints found so far. -/
  | probing (f : FileMetaInfo) (c : ChunkFile) (blocklist : List String) (pending : List String)
      (results : List IndexerEndpoint)
  /-- About to create the output file. -/
  | create (f : FileMetaInfo) (c : ChunkFile) (queryEndpoints : List IndexerEndpoint)
  /-- In the index loop, at index `i` of `n`, with the tasks spawned so far. -/
  | spawning (f : FileMetaInfo) (c : ChunkFile) (queryEndpoints : List IndexerEndpoint)
      (path : List String) (i n : Nat) (handles : List Nat)
  /-- Awaiting the handles in order, with the number of tasks that returned `Err`. -/
  | joining (handles : List Nat) (failed : Nat)
  deriving DecidableEq, Repr

/-- Where the main task is. -/
inductive Main where
  | start
  /-- Downloading entry `k` of the manifest. -/
  | file (m : SubfileManifest) (k : Nat) (phase : FilePhase)
  | done (result : Except Failure Unit)
  deriving DecidableEq, Repr

/-- What the threads did. -/
inductive Event where
  /-- `check_availability` for entry `k` took its copy of the blocklist. -/
  | checked (k : Nat) (blocklist : List String)
  /-- A probe of entry `k`'s `check_availability` ran on `url`: `/status` answered
      `statusReply`, `/operator` answered `operatorReply`, and the probe returned
      `result`. -/
  | probed (k : Nat) (url : String) (statusReply operatorReply : ProbeReply)
      (result : Except String IndexerEndpoint)
  /-- Task `t` sent its range request to `target`, and `reply` came back. -/
  | sent (t : Nat) (target : String) (reply : RangeReply)
  /-- Task `t` wrote `data` at `offset` of the file at `path`. -/
  | wrote (t : Nat) (path : List String) (offset : Nat) (data : Bytes)
  deriving DecidableEq, Repr

/-- The downloader and everything it shares. -/
structure State where
  main : Main
  /-- The errors `download_subfile` collected (`incomplete_files`). -/
  incomplete : List String
  blocklist : List String
  /-- `chunks_to_download`. -/
  pending : String → List Nat
  files : List String → Option Bytes
  /-- Every spawned task; its position is its id. -/
  tasks : List Task
  log : List Event

/-- A fresh call of `download_subfile`. -/
def State.initial (blocklist : List String) (pending : String → List Nat)
    (files : List String → Option Bytes) : State :=
  ⟨.start, [], blocklist, pending, files, [], []⟩

/-- A step: one move of one thread. -/
inductive Choice where
  /-- The main task's next move; `ok` is how the file system call it makes goes
      (`File::create`, `metadata`), and `draw` is what `choose` draws. -/
  | main (ok : Bool) (draw : Nat)
  /-- Probe `j` of the pending ones runs, the endpoint answering `status` and `operator`. -/
  | probe (j : Nat) (status operator : ProbeReply)
  /-- Task `t` makes one pass of its loop, the endpoint answering `reply` and the
      write going as `io`. -/
  | task (t : Nat) (reply : RangeReply) (io : WriteIo)
  /-- Task `t` runs the code after `download_chunk_and_write_to_file` returned. -/
  | complete (t : Nat)
  deriving DecidableEq, Repr

/-- The message of `download_subfile` when some entry failed. -/
def incompleteMessage : String := "Chunk files download incomplete"

/-- The panic of `File::create(..).unwrap()`. -/
def createPanicMessage : String := "called Result::unwrap() on an Err value"

namespace State

/-- `download_chunk_file` for entry `k` returned `Ok`; on to the next entry. -/
def nextFile (s : State) (m : SubfileManifest) (k : Nat) : State :=
  { s with main := .file m (k + 1) .fetch }

/-- `download_chunk_file` for entry `k` returned `Err(msg)`; on to the next entry. -/
def fileFailed (s : State) (m : SubfileManifest) (k : Nat) (msg : String) : State :=
  { s with main := .file m (k + 1) .fetch, incomplete := s.incomplete ++ [msg] }

end State

/-! ## The threads -/

section
variable (env : DownloaderEnv)

/-- Where the output file of an entry resolves. -/
def outputLocation (f : FileMetaInfo) : List String :=
  resolvePath env.cwd (outputPath env.outputDir f.name)

/-- The main task's next move. -/
def mainStep (s : State) (ok : Bool) (draw : Nat) : Option State :=
  match s.main with
  | .start =>
    match fetchSubfileFromIpfs env.store env.ipfsHash with
    | .ok m => some { s with main := .file m 0 .fetch }
    | .error e => some { s with main := .done (.error e) }
  | .file m k .fetch =>
    match m.files[k]? with
    | none => some { s with main := .done (if s.incomplete = [] then .ok ()
        else .error (.error incompleteMessage)) }
    | some f =>
      match fetchChunkFileFromIpfs env.store f.hash with
      | .ok c => some { s with
          main := .file m k (.probing f c s.blocklist (filteredEndpoints env.staticEndpoints s.blocklist) [])
          log := s.log ++ [.checked k s.blocklist] }
      | .error (.error e) => some (s.fileFailed m k e)
      | .error (.panic e) => some { s with main := .done (.error (.panic e)) }
  | .file m k (.probing f c _ [] results) => some { s with main := .file m k (.create f c results) }
  | .file _ _ (.probing _ _ _ (_ :: _) _) => none
  | .file m k (.create f c eps) =>
    if ok then
      let s := { s with files := Function.update s.files (outputLocation env f) (some []) }
      match loopBound c with
      | .ok n => some { s with main := .file m k (.spawning f c eps (outputLocation env f) 0 n []) }
      | .error e => some { s with main := .done (.error e) }
    else some { s with main := .done (.error (.panic createPanicMessage)) }
  | .file m k (.spawning f c eps path i n handles) =>
    if i < n then
      match downloadRangeRequest env.ipfsHash env.chunkMaxRetry env.freeQueryAuthToken f c eps draw i with
      | .ok r => some { s with
          main := .file m k (.spawning f c eps path (i + 1) n (handles ++ [s.tasks.length]))
          tasks := s.tasks ++ [⟨⟨k, i, c, path, r⟩, 0, .running⟩] }
      | .error (.error e) => some (s.fileFailed m k ("Cannot make range request: " ++ e))
      | .error (.panic e) => some { s with main := .done (.error (.panic e)) }
    else some { s with main := .file m k (.joining handles 0) }
  | .file m k (.joining [] failed) =>
    if failed = 0 then some (s.nextFile m k) else some (s.fileFailed m k "Failed chunks")
  | .file m k (.joining (t :: handles) failed) =>
    match s.tasks[t]? with
    | some ⟨_, _, .finished true⟩ =>
      if ok then some { s with main := .file m k (.joining handles failed) }
      else some (s.fileFailed m k "metadata failed")
    | some ⟨_, _, .finished false⟩ => some { s with main := .file m k (.joining handles (failed + 1)) }
    | some ⟨_, _, .panicked⟩ => some (s.fileFailed m k "task panicked")
    | _ => none
  | .done _ => none

/-- Probe `j` of the pending ones runs. -/
def probeStep (s : State) (j : Nat) (sr opr : ProbeReply) : Option State :=
  match s.main with
  | .file m k (.probing f c b pending results) =>
    match pending[j]? with
    | some url =>
      let res := checkEndpointAvailability env.ipfsHash url sr opr
      some { s with
        main := .file m k (.probing f c b (pending.eraseIdx j)
          (match res with | .ok e => results ++ [e] | .error _ => results))
        blocklist := match res with | .ok _ => s.blocklist | .error _ => s.blocklist.insert url
        log := s.log ++ [.probed k url sr opr res] }
    | none => none
  | _ => none

/-- Where a task goes after a pass. -/
def Attempt.phase : Attempt → TaskPhase
  | .wrote _ => .returned true
  | .writeFailed _ => .returned false
  | .retry => .running
  | .exhausted => .returned false

theorem Attempt.phase_eq_returned_true {a : Attempt} (h : a.phase = .returned true) :
    ∃ data, a = .wrote data := by
  cases a <;> simp_all [Attempt.phase]

/-- The shared files after a write of `data` at `offset` of the file at `path`. -/
def writeFile (files : List String → Option Bytes) (path : List String) (offset : Nat)
    (data : Bytes) : List String → Option Bytes :=
  Function.update files path (some (writeAt ((files path).getD []) offset data))

/-- Task `t` makes one pass of its loop. -/
def taskStep (s : State) (t : Nat) (reply : RangeReply) (io : WriteIo) : Option State :=
  match s.tasks[t]? with
  | some task =>
    if task.phase = .running then
      match chunkRequest task.spec.request with
      | .error _ => some { s with tasks := s.tasks.set t { task with phase := .panicked } }
      | .ok _ =>
        let r := task.spec.request
        let a := attempt env.digest r task.attempts (rangeReplyResult reply) io
        let s := { s with
          log := s.log ++ [.sent t r.queryEndpoint reply]
          tasks := s.tasks.set t { task with
            attempts := if a = .retry then task.attempts + 1 else task.attempts
            phase := a.phase } }
        if a.written = [] then some s
        else some { s with
          files := writeFile s.files task.spec.path r.start a.written
          log := s.log ++ [.wrote t task.spec.path r.start a.written] }
    else none
  | none => none

end

/-- Task `t` runs the code after `download_chunk_and_write_to_file` returned:
    on `Ok` it removes its index from `chunks_to_download`, on `Err` it
    blocklists its request's `query_endpoint`. -/
def completeStep (s : State) (t : Nat) : Option State :=
  match s.tasks[t]? with
  | some task =>
    match task.phase with
    | .returned true =>
      let h := task.spec.request.fileHash
      some { s with
        pending := Function.update s.pending h ((s.pending h).erase task.spec.index)
        tasks := s.tasks.set t { task with phase := .finished true } }
    | .returned false =>
      some { s with
        blocklist := s.blocklist.insert task.spec.request.queryEndpoint
        tasks := s.tasks.set t { task with phase := .finished false } }
    | _ => none
  | none => none

/-- One step. -/
def step (env : DownloaderEnv) (s : State) : Choice → Option State
  | .main ok draw => mainStep env s ok draw
  | .probe j sr opr => probeStep env s j sr opr
  | .task t reply io => taskStep env s t reply io
  | .complete t => completeStep s t

/-- The steps of a list, in order. -/
def run (env : DownloaderEnv) : State → List Choice → Option State
  | s, [] => some s
  | s, c :: cs => (step env s c).bind (run env · cs)

/-- The states a call of `download_subfile` can reach. -/
inductive Reachable (env : DownloaderEnv) : State → Prop where
  | initial (blocklist : List String) (pending : String → List Nat)
      (files : List String → Option Bytes) : Reachable env (.initial blocklist pending files)
  | step {s s' : State} {c : Choice} : Reachable env s → step env s c = some s' → Reachable env s'

theorem Reachable.run {env : DownloaderEnv} {s s' : State} :
    ∀ {cs : List Choice}, Reachable env s → SubfileExchange.run env s cs = some s' → Reachable env s'
  | [], hs, h => by cases h; exact hs
  | c :: cs, hs, h => by
    simp only [SubfileExchange.run, Option.bind_eq_some] at h
    obtain ⟨s₁, h₁, h⟩ := h
    exact Reachable.run (hs.step h₁) h

/-! ## What one step does -/

section
variable {env : DownloaderEnv} {s s' : State}

/-- A probe step runs one pending probe of the current `check_availability`: it
    logs it, keeps its endpoint or blocklists its url, and changes nothing else. -/
theorem probeStep_eq_some {j : Nat} {sr opr : ProbeReply} (h : probeStep env s j sr opr = some s') :
    ∃ m k f c b pending results url, s.main = .file m k (.probing f c b pending results) ∧
      pending[j]? = some url ∧
      s' = { s with
        main := .file m k (.probing f c b (pending.eraseIdx j)
          (match checkEndpointAvailability env.ipfsHash url sr opr with
            | .ok e => results ++ [e] | .error _ => results))
        blocklist := match checkEndpointAvailability env.ipfsHash url sr opr with
          | .ok _ => s.blocklist | .error _ => s.blocklist.insert url
        log := s.log ++ [.probed k url sr opr (checkEndpointAvailability env.ipfsHash url sr opr)] } := by
  unfold probeStep at h
  split at h
  · split at h
    · cases h
      exact ⟨_, _, _, _, _, _, _, _, ‹_›, ‹_›, rfl⟩
    · cases h
  · cases h

/-- A pass of a running task: it panics on a missing token, or it logs its
    request and reply, writes what `attempt` writes, and moves on as `attempt` says. -/
theorem taskStep_eq_some {t : Nat} {reply : RangeReply} {io : WriteIo}
    (h : taskStep env s t reply io = some s') :
    ∃ task, s.tasks[t]? = some task ∧ task.phase = .running ∧
      (task.spec.request.authToken = none ∧
        s' = { s with tasks := s.tasks.set t { task with phase := .panicked } } ∨
        let r := task.spec.request
        let a := attempt env.digest r task.attempts (rangeReplyResult reply) io
        r.authToken.isSome ∧ s'.main = s.main ∧ s'.incomplete = s.incomplete ∧
        s'.blocklist = s.blocklist ∧ s'.pending = s.pending ∧
        s'.tasks = s.tasks.set t { task with
          attempts := if a = .retry then task.attempts + 1 else task.attempts
          phase := a.phase } ∧
        s'.log = s.log ++ .sent t r.queryEndpoint reply ::
          (if a.written = [] then [] else [.wrote t task.spec.path r.start a.written]) ∧
        s'.files = if a.written = [] then s.files else writeFile s.files task.spec.path r.start a.written) := by
  unfold taskStep at h
  split at h
  · rename_i task htask
    split_ifs at h with hrun
    refine ⟨task, htask, hrun, ?_⟩
    split at h
    · rename_i e he
      have htok : task.spec.request.authToken = none := by
        unfold chunkRequest at he; split at he <;> simp_all
      cases h
      exact .inl ⟨htok, rfl⟩
    · rename_i x hx
      have htok : task.spec.request.authToken.isSome := by
        obtain ⟨t, ht, -⟩ := chunkRequest_eq_ok.mp hx
        simp [ht]
      dsimp only at h ⊢
      refine .inr ⟨htok, ?_⟩
      split_ifs at h ⊢ with hw <;> cases h <;> simp
  · cases h

/-- A running task can always make a pass. -/
theorem taskStep_isSome {t : Nat} {task : Task} (ht : s.tasks[t]? = some task)
    (hrun : task.phase = .running) (reply : RangeReply) (io : WriteIo) :
    ∃ s', taskStep env s t reply io = some s' := by
  simp only [taskStep, ht, hrun, if_true]
  split
  · exact ⟨_, rfl⟩
  · split_ifs <;> exact ⟨_, rfl⟩

/-- A task that returned can always run its completion code. -/
theorem completeStep_isSome {t : Nat} {task : Task} (ht : s.tasks[t]? = some task) {b : Bool}
    (hph : task.phase = .returned b) : ∃ s', completeStep s t = some s' := by
  simp only [completeStep, ht, hph]
  cases b <;> exact ⟨_, rfl⟩

/-- The completion code of a task that returned: it marks its index done or
    blocklists its `query_endpoint`, and finishes. -/
theorem completeStep_eq_some {t : Nat} (h : completeStep s t = some s') :
    ∃ task, s.tasks[t]? = some task ∧
      (task.phase = .returned true ∧ s' = { s with
        pending := Function.update s.pending task.spec.request.fileHash
          ((s.pending task.spec.request.fileHash).erase task.spec.index)
        tasks := s.tasks.set t { task with phase := .finished true } } ∨
      task.phase = .returned false ∧ s' = { s with
        blocklist := s.blocklist.insert task.spec.request.queryEndpoint
        tasks := s.tasks.set t { task with phase := .finished false } }) := by
  unfold completeStep at h
  split at h
  · rename_i task htask
    refine ⟨task, htask, ?_⟩
    split at h <;> cases h
    · exact .inl ⟨‹_›, rfl⟩
    · exact .inr ⟨‹_›, rfl⟩
  · cases h

end

/-! ## The moves of the main task -/

/-- The moves of the main task, one per branch of `mainStep`. -/
inductive MainMove (env : DownloaderEnv) : State → State → Prop where
  | fetchManifest {s : State} {m : SubfileManifest} :
      s.main = .start → fetchSubfileFromIpfs env.store env.ipfsHash = .ok m →
      MainMove env s { s with main := .file m 0 .fetch }
  | fetchManifestFailed {s : State} {e : Failure} :
      s.main = .start → fetchSubfileFromIpfs env.store env.ipfsHash = .error e →
      MainMove env s { s with main := .done (.error e) }
  | finish {s : State} {m : SubfileManifest} {k : Nat} :
      s.main = .file m k .fetch → m.files[k]? = none →
      MainMove env s { s with main := .done (if s.incomplete = [] then .ok ()
        else .error (.error incompleteMessage)) }
  | fetchChunkFile {s : State} {m : SubfileManifest} {k : Nat} {f : FileMetaInfo} {c : ChunkFile} :
      s.main = .file m k .fetch → m.files[k]? = some f →
      fetchChunkFileFromIpfs env.store f.hash = .ok c →
      MainMove env s { s with
        main := .file m k (.probing f c s.blocklist (filteredEndpoints env.staticEndpoints s.blocklist) [])
        log := s.log ++ [.checked k s.blocklist] }
  | fetchChunkFileFailed {s : State} {m : SubfileManifest} {k : Nat} {f : FileMetaInfo} {e : String} :
      s.main = .file m k .fetch → m.files[k]? = some f →
      fetchChunkFileFromIpfs env.store f.hash = .error (.error e) →
      MainMove env s (s.fileFailed m k e)
  | fetchChunkFilePanicked {s : State} {m : SubfileManifest} {k : Nat} {f : FileMetaInfo} {e : String} :
      s.main = .file m k .fetch → m.files[k]? = some f →
      fetchChunkFileFromIpfs env.store f.hash = .error (.panic e) →
      MainMove env s { s with main := .done (.error (.panic e)) }
  | probesDone {s : State} {m : SubfileManifest} {k : Nat} {f : FileMetaInfo} {c : ChunkFile}
      {b : List String} {results : List IndexerEndpoint} :
      s.main = .file m k (.probing f c b [] results) →
      MainMove env s { s with main := .file m k (.create f c results) }
  | create {s : State} {m : SubfileManifest} {k : Nat} {f : FileMetaInfo} {c : ChunkFile}
      {eps : List IndexerEndpoint} {n : Nat} :
      s.main = .file m k (.create f c eps) → loopBound c = .ok n →
      MainMove env s { s with
        main := .file m k (.spawning f c eps (outputLocation env f) 0 n [])
        files := Function.update s.files (outputLocation env f) (some []) }
  | createLoopPanicked {s : State} {m : SubfileManifest} {k : Nat} {f : FileMetaInfo} {c : ChunkFile}
      {eps : List IndexerEndpoint} {e : Failure} :
      s.main = .file m k (.create f c eps) → loopBound c = .error e →
      MainMove env s { s with
        main := .done (.error e)
        files := Function.update s.files (outputLocation env f) (some []) }
  | createFailed {s : State} {m : SubfileManifest} {k : Nat} {f : FileMetaInfo} {c : ChunkFile}
      {eps : List IndexerEndpoint} :
      s.main = .file m k (.create f c eps) →
      MainMove env s { s with main := .done (.error (.panic createPanicMessage)) }
  | spawn {s : State} {m : SubfileManifest} {k : Nat} {f : FileMetaInfo} {c : ChunkFile}
      {eps : List IndexerEndpoint} {path : List String} {i n draw : Nat} {handles : List Nat}
      {r : DownloadRangeRequest} :
      s.main = .file m k (.spawning f c eps path i n handles) → i < n →
      downloadRangeRequest env.ipfsHash env.chunkMaxRetry env.freeQueryAuthToken f c eps draw i = .ok r →
      MainMove env s { s with
        main := .file m k (.spawning f c eps path (i + 1) n (handles ++ [s.tasks.length]))
        tasks := s.tasks ++ [⟨⟨k, i, c, path, r⟩, 0, .running⟩] }
  | spawnFailed {s : State} {m : SubfileManifest} {k : Nat} {f : FileMetaInfo} {c : ChunkFile}
      {eps : List IndexerEndpoint} {path : List String} {i n draw : Nat} {handles : List Nat}
      {e : String} :
      s.main = .file m k (.spawning f c eps path i n handles) → i < n →
      downloadRangeRequest env.ipfsHash env.chunkMaxRetry env.freeQueryAuthToken f c eps draw i =
        .error (.error e) →
      MainMove env s (s.fileFailed m k ("Cannot make range request: " ++ e))
  | spawnPanicked {s : State} {m : SubfileManifest} {k : Nat} {f : FileMetaInfo} {c : ChunkFile}
      {eps : List IndexerEndpoint} {path : List String} {i n draw : Nat} {handles : List Nat}
      {e : String} :
      s.main = .file m k (.spawning f c eps path i n handles) → i < n →
      downloadRangeRequest env.ipfsHash env.chunkMaxRetry env.freeQueryAuthToken f c eps draw i =
        .error (.panic e) →
      MainMove env s { s with main := .done (.error (.panic e)) }
  | loopDone {s : State} {m : SubfileManifest} {k : Nat} {f : FileMetaInfo} {c : ChunkFile}
      {eps : List IndexerEndpoint} {path : List String} {i n : Nat} {handles : List Nat} :
      s.main = .file m k (.spawning f c eps path i n handles) → ¬ i < n →
      MainMove env s { s with main := .file m k (.joining handles 0) }
  | joinedAll {s : State} {m : SubfileManifest} {k failed : Nat} :
      s.main = .file m k (.joining [] failed) →
      MainMove env s (if failed = 0 then s.nextFile m k else s.fileFailed m k "Failed chunks")
  | joinOk {s : State} {m : SubfileManifest} {k t failed : Nat} {handles : List Nat} {task : Task} :
      s.main = .file m k (.joining (t :: handles) failed) → s.tasks[t]? = some task →
      task.phase = .finished true →
      MainMove env s { s with main := .file m k (.joining handles failed) }
  | joinMetadataFailed {s : State} {m : SubfileManifest} {k t failed : Nat} {handles : List Nat}
      {task : Task} :
      s.main = .file m k (.joining (t :: handles) failed) → s.tasks[t]? = some task →
      task.phase = .finished true →
      MainMove env s (s.fileFailed m k "metadata failed")
  | joinErr {s : State} {m : SubfileManifest} {k t failed : Nat} {handles : List Nat} {task : Task} :
      s.main = .file m k (.joining (t :: handles) failed) → s.tasks[t]? = some task →
      task.phase = .finished false →
      MainMove env s { s with main := .file m k (.joining handles (failed + 1)) }
  | joinPanicked {s : State} {m : SubfileManifest} {k t failed : Nat} {handles : List Nat}
      {task : Task} :
      s.main = .file m k (.joining (t :: handles) failed) → s.tasks[t]? = some task →
      task.phase = .panicked →
      MainMove env s (s.fileFailed m k "task panicked")

/-- Every move of the main task is one of `MainMove`. -/
theorem mainStep_move {env : DownloaderEnv} {s s' : State} {ok : Bool} {draw : Nat}
    (h : mainStep env s ok draw = some s') : MainMove env s s' := by
  unfold mainStep at h
  split at h
  · rename_i hm
    split at h <;> cases h
    · exact .fetchManifest hm ‹_›
    · exact .fetchManifestFailed hm ‹_›
  · rename_i m k hm
    split at h
    · cases h; exact .finish hm ‹_›
    · split at h <;> cases h
      · exact .fetchChunkFile hm ‹_› ‹_›
      · exact .fetchChunkFileFailed hm ‹_› ‹_›
      · exact .fetchChunkFilePanicked hm ‹_› ‹_›
  · cases h; exact .probesDone ‹_›
  · cases h
  · split_ifs at h
    · split at h <;> cases h
      · exact .create ‹_› ‹_›
      · exact .createLoopPanicked ‹_› ‹_›
    · cases h; exact .createFailed ‹_›
  · split_ifs at h with hi
    · split at h <;> cases h
      · exact .spawn ‹_› hi ‹_›
      · exact .spawnFailed ‹_› hi ‹_›
      · exact .spawnPanicked ‹_› hi ‹_›
    · cases h; exact .loopDone ‹_› hi
  · rename_i hm
    have : MainMove env s _ := .joinedAll hm
    split_ifs at h this <;> cases h <;> exact this
  · split at h
    · split_ifs at h <;> cases h
      · exact .joinOk ‹_› ‹_› rfl
      · exact .joinMetadataFailed ‹_› ‹_› rfl
    · cases h; exact .joinErr ‹_› ‹_› rfl
    · cases h; exact .joinPanicked ‹_› ‹_› rfl
    · cases h
  · cases h

/-! ## What every step keeps -/

/-- The spec of task `t`, if it was spawned. -/
def State.spec? (s : State) (t : Nat) : Option TaskSpec := s.tasks[t]?.map Task.spec

theorem map_spec_set {tasks : List Task} {t : Nat} {task : Task} (h : tasks[t]? = some task)
    (task' : Task) (hs : task'.spec = task.spec) :
    (tasks.set t task').map Task.spec = tasks.map Task.spec := by
  apply List.ext_getElem?
  intro j
  simp only [List.map_set, List.getElem?_set, List.length_map, List.getElem?_map]
  split_ifs with hj hlt
  · subst hj; simp [h, hs]
  · subst hj; simp_all [List.getElem?_eq_none_iff.mpr (Nat.le_of_not_lt hlt)]
  · rfl

section
variable {env : DownloaderEnv} {s s' : State}

theorem MainMove.blocklist_eq (h : MainMove env s s') : s'.blocklist = s.blocklist := by
  cases h <;> first | rfl | (split_ifs <;> rfl)

theorem MainMove.pending_eq (h : MainMove env s s') : s'.pending = s.pending := by
  cases h <;> first | rfl | (split_ifs <;> rfl)

/-- The main task changes the files only by creating an entry's output file. -/
theorem MainMove.files_eq (h : MainMove env s s') :
    s'.files = s.files ∨ ∃ m k f c eps, s.main = .file m k (.create f c eps) ∧
      s'.files = Function.update s.files (outputLocation env f) (some []) := by
  cases h <;> first | exact .inl rfl | (split_ifs <;> exact .inl rfl) |
    exact .inr ⟨_, _, _, _, _, ‹_›, rfl⟩

theorem MainMove.log_grows (h : MainMove env s s') : s.log <+: s'.log := by
  cases h <;> first | exact List.prefix_refl _ | exact List.prefix_append _ _ |
    (split_ifs <;> exact List.prefix_refl _)

/-- The main task only adds tasks, by spawning them. -/
theorem MainMove.tasks_grow (h : MainMove env s s') : s.tasks <+: s'.tasks := by
  cases h <;> first | exact List.prefix_refl _ | (split_ifs <;> exact List.prefix_refl _) |
    exact List.prefix_append _ _

/-- A task after a move of the main task was there before, or it is the one the
    move spawned, running. -/
theorem MainMove.getElem?_tasks (h : MainMove env s s') {t : Nat} {task : Task}
    (ht : s'.tasks[t]? = some task) : s.tasks[t]? = some task ∨ task.phase = .running := by
  cases h with
  | spawn =>
    rcases getElem?_concat_eq_some ht with ht | ⟨-, rfl⟩
    · exact .inl ht
    · exact .inr rfl
  | joinedAll => split_ifs at ht <;> exact .inl ht
  | _ => exact .inl ht

theorem MainMove.specs_grow (h : MainMove env s s') :
    s.tasks.map Task.spec <+: s'.tasks.map Task.spec :=
  h.tasks_grow.map _

/-- No step removes a log entry. -/
theorem step_log_grows {c : Choice} (h : step env s c = some s') : s.log <+: s'.log := by
  cases c with
  | main => exact (mainStep_move h).log_grows
  | probe =>
    obtain ⟨_, _, _, _, _, _, _, _, -, -, rfl⟩ := probeStep_eq_some h
    exact List.prefix_append _ _
  | task =>
    obtain ⟨_, -, -, ⟨-, rfl⟩ | ⟨-, -, -, -, -, -, hlog, -⟩⟩ := taskStep_eq_some h
    · exact List.prefix_refl _
    · rw [hlog]; exact List.prefix_append _ _
  | complete =>
    obtain ⟨_, -, ⟨-, rfl⟩ | ⟨-, rfl⟩⟩ := completeStep_eq_some h <;> exact List.prefix_refl _

theorem taskStep_specs {t : Nat} {reply : RangeReply} {io : WriteIo}
    (h : taskStep env s t reply io = some s') : s'.tasks.map Task.spec = s.tasks.map Task.spec := by
  obtain ⟨_, ht, -, ⟨-, rfl⟩ | ⟨-, -, -, -, -, htasks, -⟩⟩ := taskStep_eq_some h
  · exact map_spec_set ht _ rfl
  · rw [htasks]; exact map_spec_set ht _ rfl

theorem completeStep_specs {t : Nat} (h : completeStep s t = some s') :
    s'.tasks.map Task.spec = s.tasks.map Task.spec := by
  obtain ⟨_, ht, ⟨-, rfl⟩ | ⟨-, rfl⟩⟩ := completeStep_eq_some h <;> exact map_spec_set ht _ rfl

/-- No step changes what a spawned task carries. -/
theorem step_specs_grow {c : Choice} (h : step env s c = some s') :
    s.tasks.map Task.spec <+: s'.tasks.map Task.spec := by
  cases c with
  | main => exact (mainStep_move h).specs_grow
  | probe =>
    obtain ⟨_, _, _, _, _, _, _, _, -, -, rfl⟩ := probeStep_eq_some h
    exact List.prefix_refl _
  | task => exact taskStep_specs h ▸ List.prefix_refl _
  | complete => exact completeStep_specs h ▸ List.prefix_refl _

/-- No step removes a blocklist entry. -/
theorem step_blocklist_subset {c : Choice} (h : step env s c = some s') :
    s.blocklist ⊆ s'.blocklist := by
  cases c with
  | main => rw [(mainStep_move h).blocklist_eq]; exact List.Subset.refl _
  | probe =>
    obtain ⟨_, _, _, _, _, _, _, _, -, -, rfl⟩ := probeStep_eq_some h
    split
    · exact List.Subset.refl _
    · exact fun x hx => List.mem_insert_of_mem hx
  | task =>
    obtain ⟨_, -, -, ⟨-, rfl⟩ | ⟨-, -, -, hbl, -⟩⟩ := taskStep_eq_some h
    · exact List.Subset.refl _
    · rw [hbl]; exact List.Subset.refl _
  | complete =>
    obtain ⟨_, -, ⟨-, rfl⟩ | ⟨-, rfl⟩⟩ := completeStep_eq_some h
    · exact List.Subset.refl _
    · exact fun x hx => List.mem_insert_of_mem hx

theorem spec?_of_prefix (hp : s.tasks.map Task.spec <+: s'.tasks.map Task.spec) {t : Nat}
    {sp : TaskSpec} (h : s.spec? t = some sp) : s'.spec? t = some sp := by
  simp only [State.spec?, ← List.getElem?_map] at h ⊢
  exact getElem?_of_prefix hp h

end

/-! ## Runs of an example -/

/-- A run that evaluates to a state where `p` holds shows such a state reachable. -/
theorem Reachable.exists_of_run {env : DownloaderEnv} {s : State} (hs : Reachable env s)
    (cs : List Choice) (p : State → Bool) (h : (SubfileExchange.run env s cs).map p = some true) :
    ∃ s', Reachable env s' ∧ p s' = true := by
  obtain ⟨s', hr, hp⟩ := Option.map_eq_some'.mp h
  exact ⟨s', hs.run hr, hp⟩

/-- The downloader of manifest `m` of the example store from `endpoints`, with a
    free query token and one attempt per chunk, writing under `/home/out`. -/
def exampleEnv (endpoints : List String) : DownloaderEnv :=
  ⟨exampleDigest, exampleStore "a.bin" exampleChunkFile, "m", endpoints, "out", some "Bearer t", 1, ["home"]⟩

/-- A fresh call, with an empty blocklist and no files. -/
def exampleStart : State := .initial [] (fun _ => []) (fun _ => none)

theorem exampleStart_reachable (env : DownloaderEnv) : Reachable env exampleStart := .initial _ _ _

/-- The probe replies of an endpoint serving `m`, with operator key `pk`. -/
def servingStatus : ProbeReply := .response 200 (.strings ["m"])

def servingOperator : ProbeReply := .response 200 (.operator "pk")

/-- The reply of an endpoint serving the bytes `0, 1, 2, 3, 4` of `a.bin` to the
    request for chunk `i`. -/
def chunkReply (i : Nat) : RangeReply := .response 206 true (((List.range 5).drop (i * 4)).take 4 |>.map Nat.toUInt8)

/-- From the start of the call to both chunk tasks of `a.bin` spawned: the
    endpoints are probed in order, both serving, and chunk `i` draws `draws i`. -/
def exampleSpawn (probes : Nat) (draws : Nat → Nat) : List Choice :=
  [.main true 0, .main true 0] ++ List.replicate probes (.probe 0 servingStatus servingOperator) ++
    [.main true 0, .main true 0, .main true (draws 0), .main true (draws 1), .main true 0]

/-- A whole successful download of `a.bin` from one endpoint. -/
def exampleRun : List Choice :=
  exampleSpawn 1 (fun _ => 0) ++ [.task 0 (chunkReply 0) .ok, .task 1 (chunkReply 1) .ok,
    .complete 0, .complete 1, .main true 0, .main true 0, .main true 0, .main true 0]

example : (run (exampleEnv ["http://a"]) exampleStart exampleRun).map
    (fun s => decide (s.main = .done (.ok ())) &&
      decide (s.files ["home", "out", "a.bin"] = some [0, 1, 2, 3, 4])) = some true := by
  decide

end SubfileExchange
