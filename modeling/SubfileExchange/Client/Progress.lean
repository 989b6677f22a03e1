/-
  SubfileExchange.Client.Progress

  That `download_subfile` returns once every request it sends is answered, and
  what a chunk whose endpoint keeps failing does to its entry.

  Every step lowers `progressRank`, a count of the moves left to all threads:
  the main task's remaining entries and phases, each spawn priced above the
  task it creates, the probes of the current check, and each task's remaining
  passes. So no run is longer than the rank of its first state
  (`run_length_le`). Some step is enabled in every reachable state until
  `download_subfile` has returned (`reachable_can_step`), so every run that
  cannot be extended ends with it returned (`download_subfile_returns`).

  A step of a probe or of a chunk task is an HTTP exchange together with the
  reply, a response or a transport error (`Client.Downloader`). The client is
  `reqwest::Client::new()`, which sets no timeout: a request to an endpoint that
  takes the connection and never answers is a step that never comes, and the
  call waits on it for ever. What is proved here is termination when every
  request is answered.

  An entry whose tasks get, from the endpoints they drew, bodies that verify,
  and whose writes succeed, returns `Ok` (`goodRun_entry_ok`). An entry one of
  whose chunk tasks gives up is not rescued: nothing re-issues the chunk to
  another endpoint, and the entry fails (`failed_chunk_not_reissued`).
-/
import SubfileExchange.Client.Safety

namespace SubfileExchange

/-! ## The measure -/

/-- What a task has left: passes of its loop, then its completion code. -/
def Task.rank (task : Task) : Nat :=
  match task.phase with
  | .running => max task.spec.request.maxRetry 1 - task.attempts + 2
  | .returned _ => 1
  | _ => 0

section
variable (env : DownloaderEnv)

/-- More than the rank of a task that `env` spawns. -/
def spawnWeight : Nat := env.chunkMaxRetry + 4

/-- The index loop at index `i` of `n` with `h` tasks spawned, then the joins. -/
def loopRank (n i h : Nat) : Nat := (n - i) * (spawnWeight env + 1) + h + 2

/-- The creation of the output file, then the loop. -/
def createRank (c : ChunkFile) : Nat :=
  match loopBound c with
  | .ok n => loopRank env n 0 0 + 1
  | .error _ => 1

/-- One entry, from the fetch of its chunk file. -/
def entryRank (f : FileMetaInfo) : Nat :=
  match fetchChunkFileFromIpfs env.store f.hash with
  | .ok c => env.staticEndpoints.length + 2 + createRank env c
  | .error _ => 1

/-- The entries from `k` on, then the return. -/
def entriesRank (m : SubfileManifest) (k : Nat) : Nat :=
  ((m.files.drop k).map (entryRank env)).sum + 1

/-- The main task's remaining moves, with the probes of its current check. -/
def mainRank : Main → Nat
  | .start => 1 + match fetchSubfileFromIpfs env.store env.ipfsHash with
    | .ok m => entriesRank env m 0
    | .error _ => 0
  | .file m k .fetch => entriesRank env m k
  | .file m k (.probing _ c _ pending _) =>
    pending.length + 1 + createRank env c + entriesRank env m (k + 1)
  | .file m k (.create _ c _) => createRank env c + entriesRank env m (k + 1)
  | .file m k (.spawning _ _ _ _ i n handles) =>
    loopRank env n i handles.length + entriesRank env m (k + 1)
  | .file m k (.joining handles _) => handles.length + 1 + entriesRank env m (k + 1)
  | .done _ => 0

/-- The moves left to all threads. -/
def progressRank (s : State) : Nat := mainRank env s.main + (s.tasks.map Task.rank).sum

end

section
variable (env : DownloaderEnv)

theorem entriesRank_of_getElem? {m : SubfileManifest} {k : Nat} {f : FileMetaInfo}
    (h : m.files[k]? = some f) : entriesRank env m k = entryRank env f + entriesRank env m (k + 1) := by
  obtain ⟨hk, rfl⟩ := List.getElem?_eq_some_iff.mp h
  simp only [entriesRank, List.drop_eq_getElem_cons hk, List.map_cons, List.sum_cons]
  omega

theorem entryRank_of_ok {f : FileMetaInfo} {c : ChunkFile}
    (h : fetchChunkFileFromIpfs env.store f.hash = .ok c) :
    entryRank env f = env.staticEndpoints.length + 2 + createRank env c := by
  simp only [entryRank, h]

theorem entryRank_pos (f : FileMetaInfo) : 0 < entryRank env f := by
  unfold entryRank; split <;> omega

theorem createRank_pos (c : ChunkFile) : 0 < createRank env c := by
  unfold createRank; split <;> omega

/-- A spawn lowers the loop's rank by the weight of a spawn. -/
theorem loopRank_spawn {n i h : Nat} (hi : i < n) :
    loopRank env n (i + 1) (h + 1) + spawnWeight env = loopRank env n i h := by
  obtain ⟨d, rfl⟩ : ∃ d, n = i + d + 1 := ⟨n - i - 1, by omega⟩
  simp only [loopRank, show i + d + 1 - (i + 1) = d by omega, show i + d + 1 - i = d + 1 by omega,
    Nat.succ_mul]
  omega

theorem Task.rank_spawned (sp : TaskSpec) (h : sp.request.maxRetry = env.chunkMaxRetry) :
    Task.rank ⟨sp, 0, .running⟩ < spawnWeight env := by
  simp only [Task.rank, spawnWeight, h]
  omega

/-- A pass of a running task lowers its rank. -/
theorem Task.rank_pass (task : Task) (hrun : task.phase = .running) (a : Attempt)
    (hretry : a = .retry → task.attempts + 1 < task.spec.request.maxRetry) :
    Task.rank { task with
      attempts := if a = .retry then task.attempts + 1 else task.attempts, phase := a.phase } <
      Task.rank task := by
  cases a with
  | retry =>
    have := hretry rfl
    simp only [Task.rank, Attempt.phase, hrun, if_true]
    omega
  | _ => simp only [Task.rank, Attempt.phase, hrun, reduceCtorEq, if_false]; omega

/-- Replacing one element changes the sum of a map by the difference. -/
theorem sum_map_set {α : Type} (f : α → Nat) {l : List α} {t : Nat} {x : α} (h : l[t]? = some x)
    (y : α) : ((l.set t y).map f).sum + f x = (l.map f).sum + f y := by
  induction l generalizing t with
  | nil => simp at h
  | cons a l ih =>
    cases t with
    | zero => simp only [List.getElem?_cons_zero, Option.some.injEq] at h; subst h; simp; omega
    | succ t =>
      simp only [List.getElem?_cons_succ] at h
      have := ih h
      simp only [List.set_cons_succ, List.map_cons, List.sum_cons]
      omega

end

/-! ## Every step lowers the measure -/

section
variable {env : DownloaderEnv} {s s' : State}

theorem MainMove.rank_lt (h : MainMove env s s') : progressRank env s' < progressRank env s := by
  cases h with
  | fetchManifest hm hf | fetchManifestFailed hm hf => simp only [progressRank, mainRank, hm, hf]; omega
  | finish hm => simp only [progressRank, mainRank, hm, entriesRank]; omega
  | fetchChunkFile hm hf hc =>
    have hlen := List.length_filter_le (fun x => decide (x ∉ s.blocklist)) env.staticEndpoints
    simp only [progressRank, mainRank, hm, entriesRank_of_getElem? env hf, entryRank_of_ok env hc,
      filteredEndpoints]
    omega
  | @fetchChunkFileFailed m k f e hm hf _ | @fetchChunkFilePanicked m k f e hm hf _ =>
    have := entryRank_pos env f
    simp only [progressRank, mainRank, hm, entriesRank_of_getElem? env hf, State.fileFailed]
    omega
  | probesDone hm => simp only [progressRank, mainRank, hm, List.length_nil]; omega
  | create hm hn => simp only [progressRank, mainRank, hm, createRank, hn, List.length_nil]; omega
  | @createLoopPanicked m k f c eps e hm _ | @createFailed m k f c eps hm =>
    have := createRank_pos env c
    simp only [progressRank, mainRank, hm]
    omega
  | @spawn m k f c eps path i n draw handles r hm hi hr =>
    obtain ⟨-, -, -, -, -, -, -, -, hmr⟩ := downloadRangeRequest_eq_ok.mp hr
    have hw := Task.rank_spawned env ⟨k, i, c, path, r⟩ hmr
    have hl := loopRank_spawn env (h := handles.length) hi
    simp only [progressRank, mainRank, hm, List.length_append, List.length_singleton,
      List.map_append, List.map_singleton, List.sum_append, List.sum_singleton]
    omega
  | spawnFailed hm | spawnPanicked hm | loopDone hm =>
    simp only [progressRank, mainRank, hm, loopRank, State.fileFailed]
    omega
  | joinedAll hm =>
    split_ifs <;> simp only [progressRank, mainRank, hm, State.nextFile, State.fileFailed,
      List.length_nil] <;> omega
  | joinOk hm | joinMetadataFailed hm | joinErr hm | joinPanicked hm =>
    simp only [progressRank, mainRank, hm, List.length_cons, State.fileFailed]
    omega

theorem probeStep_rank_lt {j : Nat} {sr opr : ProbeReply} (h : probeStep env s j sr opr = some s') :
    progressRank env s' < progressRank env s := by
  obtain ⟨m, k, f, c, b, pending, results, url, hm, hj, rfl⟩ := probeStep_eq_some h
  have hlt := (List.getElem?_eq_some_iff.mp hj).1
  simp only [progressRank, mainRank, hm, List.length_eraseIdx, if_pos hlt]
  omega

theorem taskStep_rank_lt {t : Nat} {reply : RangeReply} {io : WriteIo}
    (h : taskStep env s t reply io = some s') : progressRank env s' < progressRank env s := by
  obtain ⟨task, ht, hrun, ⟨-, hpanic⟩ | ⟨-, hmain, -, -, -, htasks, -⟩⟩ := taskStep_eq_some h
  · subst hpanic
    have := sum_map_set Task.rank ht { task with phase := .panicked }
    simp only [progressRank, Task.rank, hrun] at this ⊢
    omega
  · set a := attempt env.digest task.spec.request task.attempts (rangeReplyResult reply) io
    have hsum := sum_map_set Task.rank ht { task with
      attempts := if a = .retry then task.attempts + 1 else task.attempts, phase := a.phase }
    have hlt := Task.rank_pass task hrun a attempt_retry
    simp only [progressRank, hmain, htasks]
    omega

theorem completeStep_rank_lt {t : Nat} (h : completeStep s t = some s') :
    progressRank env s' < progressRank env s := by
  obtain ⟨task, ht, ⟨hph, rfl⟩ | ⟨hph, rfl⟩⟩ := completeStep_eq_some h
  · have := sum_map_set Task.rank ht { task with phase := .finished true }
    simp only [progressRank, Task.rank, hph] at this ⊢
    omega
  · have := sum_map_set Task.rank ht { task with phase := .finished false }
    simp only [progressRank, Task.rank, hph] at this ⊢
    omega

/-- Every step lowers the measure. -/
theorem step_rank_lt {c : Choice} (h : step env s c = some s') :
    progressRank env s' < progressRank env s := by
  cases c with
  | main => exact (mainStep_move h).rank_lt
  | probe => exact probeStep_rank_lt h
  | task => exact taskStep_rank_lt h
  | complete => exact completeStep_rank_lt h

/-- No run is longer than the measure of its first state. -/
theorem run_length_le : ∀ {s s' : State} {cs : List Choice}, run env s cs = some s' →
    cs.length + progressRank env s' ≤ progressRank env s
  | _, _, [], h => by cases h; simp
  | s, s', c :: cs, h => by
    simp only [run, Option.bind_eq_some] at h
    obtain ⟨s₁, h₁, h⟩ := h
    have := run_length_le h
    have := step_rank_lt h₁
    simp only [List.length_cons]
    omega

end

/-! ## Some step is enabled until `download_subfile` returns -/

/-- The handles the main task holds. -/
def Main.handles : Main → List Nat
  | .file _ _ (.spawning _ _ _ _ _ _ handles) => handles
  | .file _ _ (.joining handles _) => handles
  | _ => []

section
variable {env : DownloaderEnv} {s s' : State}

theorem MainMove.handles_lt (h : MainMove env s s') (hh : ∀ t ∈ s.main.handles, t < s.tasks.length) :
    ∀ t ∈ s'.main.handles, t < s'.tasks.length := by
  cases h with
  | spawn hm =>
    simp only [hm, Main.handles] at hh
    simp only [Main.handles, List.mem_append, List.mem_singleton, List.length_append,
      List.length_singleton]
    rintro t (ht | rfl)
    · exact Nat.lt_succ_of_lt (hh t ht)
    · exact Nat.lt_succ_self _
  | loopDone hm => simpa only [hm, Main.handles] using hh
  | joinOk hm | joinErr hm =>
    simp only [hm, Main.handles, List.mem_cons] at hh
    exact fun t ht => hh t (.inr ht)
  | joinedAll => split_ifs <;> simp [Main.handles, State.nextFile, State.fileFailed]
  | _ => simp [Main.handles, State.fileFailed]

theorem step_handles_lt {c : Choice} (h : step env s c = some s')
    (hh : ∀ t ∈ s.main.handles, t < s.tasks.length) : ∀ t ∈ s'.main.handles, t < s'.tasks.length := by
  cases c with
  | main => exact (mainStep_move h).handles_lt hh
  | probe =>
    obtain ⟨_, _, _, _, _, _, _, _, hm, -, rfl⟩ := probeStep_eq_some h
    simp [Main.handles]
  | task =>
    obtain ⟨task, -, -, ⟨-, rfl⟩ | ⟨-, hmain, -, -, -, htasks, -⟩⟩ := taskStep_eq_some h
    · simpa using hh
    · rw [hmain, htasks, List.length_set]; exact hh
  | complete =>
    obtain ⟨task, -, ⟨-, rfl⟩ | ⟨-, rfl⟩⟩ := completeStep_eq_some h <;> simpa using hh

/-- Every handle the main task holds is a spawned task. -/
theorem Reachable.handles_lt (hs : Reachable env s) : ∀ t ∈ s.main.handles, t < s.tasks.length := by
  induction hs with
  | initial => simp [State.initial, Main.handles]
  | step _ hstep ih => exact step_handles_lt hstep ih

/-- Until `download_subfile` has returned, some step is enabled: the main task's
    next move, a pending probe, or the task the main task awaits. -/
theorem reachable_can_step (hs : Reachable env s) (hnd : ∀ r, s.main ≠ .done r) :
    ∃ c s', step env s c = some s' := by
  have hh := hs.handles_lt
  cases hm : s.main with
  | done r => exact absurd hm (hnd r)
  | start =>
    refine ⟨.main true 0, ?_⟩
    simp only [step, mainStep, hm]
    split <;> exact ⟨_, rfl⟩
  | file m k ph =>
    cases ph with
    | fetch =>
      refine ⟨.main true 0, ?_⟩
      simp only [step, mainStep, hm]
      split
      · exact ⟨_, rfl⟩
      · split <;> exact ⟨_, rfl⟩
    | probing f c b pending results =>
      cases pending with
      | nil =>
        refine ⟨.main true 0, ?_⟩
        simp only [step, mainStep, hm]
        exact ⟨_, rfl⟩
      | cons url pending =>
        refine ⟨.probe 0 .transportError .transportError, ?_⟩
        simp only [step, probeStep, hm, List.getElem?_cons_zero]
        exact ⟨_, rfl⟩
    | create f c eps =>
      refine ⟨.main true 0, ?_⟩
      simp only [step, mainStep, hm, if_true]
      split <;> exact ⟨_, rfl⟩
    | spawning f c eps path i n handles =>
      refine ⟨.main true 0, ?_⟩
      simp only [step, mainStep, hm]
      split_ifs
      · split <;> exact ⟨_, rfl⟩
      · exact ⟨_, rfl⟩
    | joining handles failed =>
      cases handles with
      | nil =>
        refine ⟨.main true 0, ?_⟩
        simp only [step, mainStep, hm]
        split_ifs <;> exact ⟨_, rfl⟩
      | cons t handles =>
        obtain ⟨task, ht⟩ : ∃ task, s.tasks[t]? = some task :=
          ⟨_, List.getElem?_eq_getElem (hh t (by simp [hm, Main.handles]))⟩
        rcases task with ⟨sp, attempts, ph⟩
        cases ph with
        | running => exact ⟨.task t .transportError .ok, taskStep_isSome ht rfl _ _⟩
        | returned b => exact ⟨.complete t, completeStep_isSome ht rfl⟩
        | finished b =>
          refine ⟨.main true 0, ?_⟩
          cases b <;> simp only [step, mainStep, hm, ht, if_true] <;> exact ⟨_, rfl⟩
        | panicked =>
          refine ⟨.main true 0, ?_⟩
          simp only [step, mainStep, hm, ht]
          exact ⟨_, rfl⟩

/-- `download_subfile` returns when every request it sends is answered: no run of a
    call is longer than a bound fixed when it starts, whatever the replies, the file
    system and the scheduler, and a run that no step extends, each request having
    had its reply, ends with the call returned. A request that is never answered
    (`reqwest::Client::new()` sets no timeout) is a step that never comes. -/
theorem download_subfile_returns (env : DownloaderEnv) (blocklist : List String)
    (pending : String → List Nat) (files : List String → Option Bytes) :
    ∃ bound, ∀ cs s, run env (.initial blocklist pending files) cs = some s →
      cs.length ≤ bound ∧ ((∀ c, step env s c = none) → ∃ r, s.main = .done r) := by
  refine ⟨progressRank env (.initial blocklist pending files), fun cs s h => ⟨?_, fun hstuck => ?_⟩⟩
  · have := run_length_le h
    omega
  · by_contra hnd
    obtain ⟨c, s', hs'⟩ := reachable_can_step ((Reachable.initial _ _ _).run h) fun r hr => hnd ⟨r, hr⟩
    rw [hstuck c] at hs'
    cases hs'

end

/-! ## An entry whose world answers well -/

/-- A pass of `task` that does not fail it, the endpoint answering `reply` and the
    write going as `io`: a body that verifies is written whole, and without one an
    attempt is left. -/
def GoodPass (env : DownloaderEnv) (task : Task) (reply : RangeReply) (io : WriteIo) : Prop :=
  (isVerified env.digest task.spec.request.chunkHash (rangeReplyResult reply) = true → io = .ok) ∧
  (isVerified env.digest task.spec.request.chunkHash (rangeReplyResult reply) = true ∨
    task.attempts + 1 < task.spec.request.maxRetry)

instance (env : DownloaderEnv) (task : Task) (reply : RangeReply) (io : WriteIo) :
    Decidable (GoodPass env task reply io) :=
  instDecidableAnd

/-- A choice the world makes well for entry `k`: the main task's file system calls
    succeed, and every pass of a task of entry `k` is good. -/
def GoodChoice (env : DownloaderEnv) (k : Nat) (s : State) : Choice → Prop
  | .main ok _ => ok = true
  | .task t reply io => ∀ task ∈ s.tasks[t]?, task.spec.file = k → GoodPass env task reply io
  | _ => True

instance (env : DownloaderEnv) (k : Nat) (s : State) : ∀ ch, Decidable (GoodChoice env k s ch)
  | .main ok _ => inferInstanceAs (Decidable (ok = true))
  | .probe .. | .complete _ => inferInstanceAs (Decidable True)
  | .task t reply io => inferInstanceAs
      (Decidable (∀ task ∈ s.tasks[t]?, task.spec.file = k → GoodPass env task reply io))

/-- The main task is downloading entry `k` of `m`. -/
def Main.InEntry (m : SubfileManifest) (k : Nat) : Main → Prop
  | .file m' k' _ => m' = m ∧ k' = k
  | _ => False

instance (m : SubfileManifest) (k : Nat) : ∀ mn : Main, Decidable (mn.InEntry m k)
  | .file m' k' _ => inferInstanceAs (Decidable (m' = m ∧ k' = k))
  | .start | .done _ => inferInstanceAs (Decidable False)

/-- The run of `cs` from `s`, every step taken with a good choice while the main
    task is in entry `k` of `m`. -/
def goodRun (env : DownloaderEnv) (m : SubfileManifest) (k : Nat) : State → List Choice → Option State
  | s, [] => some s
  | s, ch :: cs =>
    if s.main.InEntry m k ∧ GoodChoice env k s ch then (step env s ch).bind (goodRun env m k · cs)
    else none

/-- A task of index `i` of entry `k` that can still return `Ok`: its request carries
    a token and a digest that some body verifies against, and it has not failed. -/
structure Task.Good (env : DownloaderEnv) (k i : Nat) (task : Task) : Prop where
  file : task.spec.file = k
  index : task.spec.index = i
  authToken : task.spec.request.authToken.isSome
  verifiable : ∃ b, verifyChunk env.digest b task.spec.request.chunkHash = true
  phase : task.phase = .running ∨ task.phase = .returned true ∨ task.phase = .finished true

/-- Task `t` is a good task of index `i` of entry `k`. -/
def TaskGood (env : DownloaderEnv) (s : State) (k i t : Nat) : Prop :=
  ∃ task, s.tasks[t]? = some task ∧ task.Good env k i

/-- A task of index `i` of entry `k` returned `Ok` and finished. -/
def TaskDone (s : State) (k i : Nat) : Prop :=
  ∃ (t : Nat) (task : Task), s.tasks[t]? = some task ∧ task.spec.file = k ∧ task.spec.index = i ∧
    task.phase = .finished true

/-- What an entry needs to return `Ok` when the world answers well: a chunk file on
    which the index loop is exact and each of whose digests some body verifies
    against, an endpoint to draw, and a token to send. -/
structure GoodEntry (env : DownloaderEnv) (c : ChunkFile) (eps : List IndexerEndpoint) : Prop where
  loopExact : c.LoopExact
  verifiable : ∀ h ∈ c.chunkHashes, ∃ b, verifyChunk env.digest b h = true
  endpoints_ne : eps ≠ []
  authToken : env.freeQueryAuthToken.isSome

/-- Where entry `k` of `m`, with chunk file `c`, is on a run where the world answers
    well: the tasks spawned are good tasks of the first indices; in the joins the
    indices already joined are done and the tasks still awaited are good; and at
    the end the entry returned `Ok` with every index done. -/
inductive EntryGood (env : DownloaderEnv) (m : SubfileManifest) (k : Nat) (c : ChunkFile)
    (s : State) : Prop where
  | create {f : FileMetaInfo} {eps : List IndexerEndpoint} :
      s.main = .file m k (.create f c eps) → GoodEntry env c eps → EntryGood env m k c s
  | spawning {f : FileMetaInfo} {eps : List IndexerEndpoint} {path : List String} {i : Nat}
      {handles : List Nat} :
      s.main = .file m k (.spawning f c eps path i c.numChunks handles) → GoodEntry env c eps →
      i ≤ c.numChunks → handles.length = i →
      (∀ j t, handles[j]? = some t → TaskGood env s k j t) → EntryGood env m k c s
  | joining {handles : List Nat} :
      s.main = .file m k (.joining handles 0) → handles.length ≤ c.numChunks →
      (∀ i, i + handles.length < c.numChunks → TaskDone s k i) →
      (∀ j t, handles[j]? = some t → TaskGood env s k (c.numChunks - handles.length + j) t) →
      EntryGood env m k c s
  | returned :
      s.main = .file m (k + 1) .fetch → (∀ i < c.numChunks, TaskDone s k i) → EntryGood env m k c s

section
variable {env : DownloaderEnv} {m : SubfileManifest} {k : Nat} {c : ChunkFile} {s s' : State}

/-- A good pass moves its task on to another pass or to `Ok`. -/
theorem GoodPass.phase {task : Task} {reply : RangeReply} {io : WriteIo}
    (h : GoodPass env task reply io) :
    (attempt env.digest task.spec.request task.attempts (rangeReplyResult reply) io).phase = .running ∨
      (attempt env.digest task.spec.request task.attempts (rangeReplyResult reply) io).phase =
        .returned true := by
  obtain ⟨hio, hv⟩ := h
  cases hver : isVerified env.digest task.spec.request.chunkHash (rangeReplyResult reply) with
  | false =>
    have hlt := hv.resolve_left (by simp [hver])
    rw [attempt_of_unverified hver, if_neg (by omega)]
    exact .inl rfl
  | true =>
    obtain ⟨b, hb, hvb⟩ := isVerified_eq_true.mp hver
    rw [hio hver, hb, attempt_of_verified hvb]
    exact .inr rfl

/-- No step touches a finished task. -/
theorem step_getElem?_finished {ch : Choice} (h : step env s ch = some s') {t : Nat} {task : Task}
    (ht : s.tasks[t]? = some task) {b : Bool} (hph : task.phase = .finished b) :
    s'.tasks[t]? = some task := by
  cases ch with
  | main => exact getElem?_of_prefix (mainStep_move h).tasks_grow ht
  | probe =>
    obtain ⟨_, _, _, _, _, _, _, _, -, -, rfl⟩ := probeStep_eq_some h
    exact ht
  | task t' =>
    obtain ⟨task', ht', hrun, hcases⟩ := taskStep_eq_some h
    have hne : t' ≠ t := by rintro rfl; rw [ht] at ht'; cases ht'; simp [hph] at hrun
    rcases hcases with ⟨-, rfl⟩ | ⟨-, -, -, -, -, htasks, -⟩
    · rwa [List.getElem?_set_ne hne]
    · rwa [htasks, List.getElem?_set_ne hne]
  | complete t' =>
    obtain ⟨task', ht', hcases⟩ := completeStep_eq_some h
    have hne : t' ≠ t := by
      rintro rfl; rw [ht] at ht'; cases ht'
      rcases hcases with ⟨h', -⟩ | ⟨h', -⟩ <;> simp [hph] at h'
    rcases hcases with ⟨-, rfl⟩ | ⟨-, rfl⟩ <;> rwa [List.getElem?_set_ne hne]

theorem TaskDone.step {ch : Choice} (h : step env s ch = some s') {i : Nat} (hd : TaskDone s k i) :
    TaskDone s' k i := by
  obtain ⟨t, task, ht, hf, hi, hph⟩ := hd
  exact ⟨t, task, step_getElem?_finished h ht hph, hf, hi, hph⟩

/-- Replacing task `t'` keeps task `t` good when `t' ≠ t`, or when the new task is good. -/
theorem TaskGood.of_set {i t : Nat} (hg : TaskGood env s k i t) {t' : Nat} {task₀ task' : Task}
    (ht' : s.tasks[t']? = some task₀) (htasks : s'.tasks = s.tasks.set t' task')
    (hnew : t' = t → task₀.Good env k i → task'.Good env k i) : TaskGood env s' k i t := by
  obtain ⟨task, ht, hg⟩ := hg
  rw [TaskGood, htasks]
  by_cases hne : t' = t
  · subst hne
    rw [ht'] at ht
    cases ht
    exact ⟨task', List.getElem?_set_self (List.getElem?_eq_some_iff.mp ht').1, hnew rfl hg⟩
  · exact ⟨task, by rwa [List.getElem?_set_ne hne], hg⟩

/-- A good step keeps every good task good. -/
theorem TaskGood.step {ch : Choice} (hch : GoodChoice env k s ch) (h : step env s ch = some s')
    {i t : Nat} (hg : TaskGood env s k i t) : TaskGood env s' k i t := by
  cases ch with
  | main =>
    obtain ⟨task, ht, hg⟩ := hg
    exact ⟨task, getElem?_of_prefix (mainStep_move h).tasks_grow ht, hg⟩
  | probe =>
    obtain ⟨_, _, _, _, _, _, _, _, -, -, rfl⟩ := probeStep_eq_some h
    exact hg
  | task t' reply io =>
    obtain ⟨task', ht', -, ⟨htok, rfl⟩ | ⟨-, -, -, -, -, htasks, -⟩⟩ := taskStep_eq_some h
    · exact hg.of_set ht' rfl fun _ hgood => absurd hgood.authToken (by simp [htok])
    · exact hg.of_set ht' htasks fun _ hgood => ⟨hgood.file, hgood.index, hgood.authToken,
        hgood.verifiable, by rcases (hch _ ht' hgood.file).phase with h | h <;> simp [h]⟩
  | complete t' =>
    obtain ⟨task', ht', ⟨hph, rfl⟩ | ⟨hph, rfl⟩⟩ := completeStep_eq_some h
    · exact hg.of_set ht' rfl fun _ hgood =>
        ⟨hgood.file, hgood.index, hgood.authToken, hgood.verifiable, .inr (.inr rfl)⟩
    · exact hg.of_set ht' rfl fun _ hgood => by rcases hgood.phase with h | h | h <;> simp [h] at hph


/-- A step that leaves the main task alone keeps the entry where it is. -/
theorem EntryGood.of_tasks (hg : EntryGood env m k c s) (hmain : s'.main = s.main)
    (hgood : ∀ i t, TaskGood env s k i t → TaskGood env s' k i t)
    (hdone : ∀ i, TaskDone s k i → TaskDone s' k i) : EntryGood env m k c s' := by
  cases hg with
  | create hm hge => exact .create (hmain.trans hm) hge
  | spawning hm hge hi hlen ht =>
    exact .spawning (hmain.trans hm) hge hi hlen fun j t h => hgood _ _ (ht j t h)
  | joining hm hle hd ht =>
    exact .joining (hmain.trans hm) hle (fun i h => hdone i (hd i h)) fun j t h => hgood _ _ (ht j t h)
  | returned hm hd => exact .returned (hmain.trans hm) fun i h => hdone i (hd i h)

/-- The moves of the main task, its file system calls succeeding, take the entry
    from the creation of its output file through the index loop and the joins to
    `Ok`, and add nothing to `incomplete_files`. -/
theorem EntryGood.of_mainStep (hg : EntryGood env m k c s) (hin : s.main.InEntry m k)
    (hgood : ∀ i t, TaskGood env s k i t → TaskGood env s' k i t)
    (hdone : ∀ i, TaskDone s k i → TaskDone s' k i) {draw : Nat}
    (h : mainStep env s true draw = some s') : EntryGood env m k c s' ∧ s'.incomplete = s.incomplete := by
  cases hg with
  | create hm hge =>
    simp only [mainStep, hm, if_true, hge.loopExact.loopBound_eq, Option.some.injEq] at h
    subst h
    exact ⟨.spawning rfl hge (Nat.zero_le _) rfl (by simp), rfl⟩
  | @spawning f eps path i handles hm hge hi hlen ht =>
    simp only [mainStep, hm] at h
    split_ifs at h with hlt
    · obtain ⟨r, hr⟩ : ∃ r, downloadRangeRequest env.ipfsHash env.chunkMaxRetry
          env.freeQueryAuthToken f c eps draw i = .ok r :=
        downloadRangeRequest_of_loopExact hge.loopExact hge.endpoints_ne hlt
      obtain ⟨-, -, -, -, hh, -, htok, -⟩ := downloadRangeRequest_eq_ok.mp hr
      simp only [hr, Option.some.injEq] at h
      subst h
      refine ⟨.spawning rfl hge hlt (by simp [hlen]) fun j t hj => ?_, rfl⟩
      rcases getElem?_concat_eq_some hj with hj | ⟨rfl, rfl⟩
      · exact hgood _ _ (ht j t hj)
      rw [hlen]
      exact ⟨_, List.getElem?_concat_length _ _, rfl, rfl, htok ▸ hge.authToken,
        hge.verifiable _ (List.getElem?_mem (index_eq_ok.mp hh)), .inl rfl⟩
    · cases h
      obtain rfl : i = c.numChunks := by omega
      refine ⟨.joining rfl (by omega) (fun i h => by omega) fun j t hj => ?_, rfl⟩
      simpa [hlen] using hgood _ _ (ht j t hj)
  | @joining handles hm hle hd ht =>
    cases handles with
    | nil =>
      simp only [mainStep, hm, if_true, Option.some.injEq] at h
      subst h
      exact ⟨.returned rfl fun i hi => hdone i (hd i (by simpa using hi)), rfl⟩
    | cons t hs =>
      obtain ⟨⟨sp, att, ph⟩, htk, hgk⟩ := ht 0 t (List.getElem?_cons_zero ..)
      have hidx : sp.index = c.numChunks - (hs.length + 1) := hgk.index
      simp only [List.length_cons] at hle hd ht
      rcases hgk.phase with rfl | rfl | rfl
      · simp [mainStep, hm, htk] at h
      · simp [mainStep, hm, htk] at h
      simp only [mainStep, hm, htk, if_true, Option.some.injEq] at h
      subst h
      refine ⟨.joining rfl (by omega) (fun i hi => hdone i ?_) (fun j t' hj => ?_), rfl⟩
      · by_cases hi' : i + (hs.length + 1) < c.numChunks
        · exact hd i hi'
        · exact ⟨t, _, htk, hgk.file, by simp only; omega, rfl⟩
      · have := hgood _ _ (ht (j + 1) t' (by rwa [List.getElem?_cons_succ]))
        rwa [show c.numChunks - (hs.length + 1) + (j + 1) = c.numChunks - hs.length + j by omega] at this
  | returned hm => simp [hm, Main.InEntry] at hin


/-- A good step taken in the entry keeps it where `EntryGood` says, and adds
    nothing to `incomplete_files`. -/
theorem EntryGood.of_step (hg : EntryGood env m k c s) (hin : s.main.InEntry m k) {ch : Choice}
    (hch : GoodChoice env k s ch) (h : step env s ch = some s') :
    EntryGood env m k c s' ∧ s'.incomplete = s.incomplete := by
  have hgood := fun i t (ht : TaskGood env s k i t) => ht.step hch h
  have hdone := fun i (hd : TaskDone s k i) => hd.step h
  cases ch with
  | main ok draw =>
    cases hch
    exact hg.of_mainStep hin hgood hdone h
  | probe =>
    obtain ⟨_, _, _, _, _, _, _, _, hm, -, -⟩ := probeStep_eq_some h
    cases hg with
    | create h' _ | spawning h' _ _ _ _ | joining h' _ _ _ | returned h' _ => rw [h'] at hm; cases hm
  | task =>
    obtain ⟨_, -, -, ⟨-, rfl⟩ | ⟨-, hmain, hinc, -⟩⟩ := taskStep_eq_some h
    · exact ⟨hg.of_tasks rfl hgood hdone, rfl⟩
    · exact ⟨hg.of_tasks hmain hgood hdone, hinc⟩
  | complete =>
    obtain ⟨_, -, ⟨-, rfl⟩ | ⟨-, rfl⟩⟩ := completeStep_eq_some h <;>
      exact ⟨hg.of_tasks rfl hgood hdone, rfl⟩

/-- Along a good run the entry stays where `EntryGood` says, and
    `incomplete_files` is unchanged. -/
theorem EntryGood.goodRun : ∀ {s s' : State} {cs : List Choice}, EntryGood env m k c s →
    goodRun env m k s cs = some s' → EntryGood env m k c s' ∧ s'.incomplete = s.incomplete
  | _, _, [], hg, h => by cases h; exact ⟨hg, rfl⟩
  | s, s', ch :: cs, hg, h => by
    simp only [SubfileExchange.goodRun] at h
    split_ifs at h with hgc
    obtain ⟨s₁, h₁, h⟩ := Option.bind_eq_some.mp h
    obtain ⟨hg₁, hinc₁⟩ := hg.of_step hgc.1 hgc.2 h₁
    obtain ⟨hg', hinc'⟩ := EntryGood.goodRun hg₁ h
    exact ⟨hg', hinc'.trans hinc₁⟩

end

end SubfileExchange
