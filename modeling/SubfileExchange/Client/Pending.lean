/-
  SubfileExchange.Client.Pending

  The downloader's map `chunks_to_download`: for each chunk-file hash, the
  indices not yet downloaded. `chunks_to_download` fills it from the manifest
  with the indices of the loop that `download_chunk_file` runs,
  `0..total_bytes / chunk_size + 1` (`chunksToDownload_fresh`); the completion
  hook of a chunk task that returned `Ok` removes its index (`completeStep`),
  and nothing else touches it. `download_subfile` never calls
  `chunks_to_download`: it starts from whatever map its caller left, on a new
  downloader the empty one, which stays empty (`run_fresh_pending_eq_nil`).

  From a map that `chunks_to_download` filled on a fresh downloader, every state
  of `download_subfile` satisfies `PendingOk` (`chunksToDownload_pending`): each
  task is spawned for an index of the map, and once an entry's loop reaches its
  joins every index of its hash has a task (`LoopInv`, the two index loops
  agree); the map only loses indices; an index leaves it only through a task for
  it that completed with `Ok` after writing a verified chunk at the index's
  offset (`PendingInv`); a call of `download_chunk_file` returns `Ok` only with
  its hash's set empty; and for an entry whose chunk-file hash no other entry
  has, once each index has a task and they all finished, the set is exactly the
  indices whose task failed (`PendingOk.mem_iff_failed`).

  Two things break the plain statement. `download_chunk_file` can stop before
  its loop has spawned a task for every index (no endpoint, a failed range
  request, the panic at `chunk_hashes[T / C]` when `C` divides `T`), and those
  indices stay in the set with no task failed on them. And the map is keyed by
  chunk-file hash: when two entries share one, a later entry's task removes an
  index whose task in the earlier entry failed
  (`failed_index_removed_by_shared_hash`).
-/
import SubfileExchange.Client.Content
import SubfileExchange.Client.Progress

namespace SubfileExchange

/-! ## `chunks_to_download` -/

/-- `chunks_set.insert(i)` for `i` in `0..n`. -/
def insertIndices (set : List Nat) : Nat → List Nat
  | 0 => set
  | n + 1 => (insertIndices set n).insert n

theorem mem_insertIndices {set : List Nat} {n i : Nat} :
    i ∈ insertIndices set n ↔ i ∈ set ∨ i < n := by
  induction n with
  | zero => simp [insertIndices]
  | succ n ih =>
    simp only [insertIndices, List.mem_insert_iff, ih, Nat.lt_succ_iff_lt_or_eq]
    rw [or_comm, or_assoc]

theorem nodup_insertIndices {set : List Nat} (h : set.Nodup) : ∀ n, (insertIndices set n).Nodup
  | 0 => h
  | n + 1 => (nodup_insertIndices h n).insert

/-- The loop of `chunks_to_download` over the manifest's entries: the set of each
    entry's chunk-file hash gets the indices of the entry's loop. The code creates
    the set before it fetches the chunk file; an empty set and no set hold the
    same indices, and the model does not tell them apart. -/
def chunksToDownloadLoop (store : IpfsStore) :
    List FileMetaInfo → (String → List Nat) → (String → List Nat) × Except Failure Unit
  | [], pending => (pending, .ok ())
  | f :: fs, pending =>
    match fetchChunkFileFromIpfs store f.hash with
    | .error e => (pending, .error e)
    | .ok c =>
      match loopBound c with
      | .error e => (pending, .error e)
      | .ok n =>
        chunksToDownloadLoop store fs
          (Function.update pending f.hash (insertIndices (pending f.hash) n))

/-- `chunks_to_download`: the map it leaves, with the manifest or the failure. -/
def chunksToDownload (store : IpfsStore) (ipfsHash : String) (pending : String → List Nat) :
    (String → List Nat) × Except Failure SubfileManifest :=
  match fetchSubfileFromIpfs store ipfsHash with
  | .error e => (pending, .error e)
  | .ok m =>
    match chunksToDownloadLoop store m.files pending with
    | (pending', .ok ()) => (pending', .ok m)
    | (pending', .error e) => (pending', .error e)

/-- The indices the loop adds for the entries `fs` under hash `h`. -/
def LoopIndex (store : IpfsStore) (fs : List FileMetaInfo) (h : String) (i : Nat) : Prop :=
  ∃ f ∈ fs, f.hash = h ∧ ∃ c n, store.chunkFiles h = some c ∧ loopBound c = .ok n ∧ i < n

theorem exists_loopBound_iff {store : IpfsStore} {h : String} {c : ChunkFile} {n : Nat}
    (hc : store.chunkFiles h = some c) (hn : loopBound c = .ok n) (i : Nat) :
    (∃ c' n', store.chunkFiles h = some c' ∧ loopBound c' = .ok n' ∧ i < n') ↔ i < n := by
  constructor
  · rintro ⟨c', n', hc', hn', hi⟩
    rw [hc, Option.some.injEq] at hc'
    subst hc'
    rw [hn, Except.ok.injEq] at hn'
    exact hn' ▸ hi
  · exact fun hi => ⟨c, n, hc, hn, hi⟩

theorem chunksToDownloadLoop_ok {store : IpfsStore} :
    ∀ {fs : List FileMetaInfo} {p p' : String → List Nat},
      chunksToDownloadLoop store fs p = (p', .ok ()) →
      (∀ h, (p h).Nodup → (p' h).Nodup) ∧ ∀ h i, i ∈ p' h ↔ i ∈ p h ∨ LoopIndex store fs h i
  | [], p, p', hl => by
    cases hl
    exact ⟨fun _ => id, fun h i => (or_iff_left fun ⟨_, hf, _⟩ => List.not_mem_nil _ hf).symm⟩
  | f :: fs, p, p', hl => by
    simp only [chunksToDownloadLoop] at hl
    split at hl
    · cases hl
    rename_i c hc
    split at hl
    · cases hl
    rename_i n hn
    rw [fetchChunkFileFromIpfs_eq_ok] at hc
    obtain ⟨hnd, hmem⟩ := chunksToDownloadLoop_ok hl
    refine ⟨fun h hp => hnd h ?_, fun h i => ?_⟩
    · by_cases hh : h = f.hash
      · subst hh
        rw [Function.update_same]
        exact nodup_insertIndices hp n
      · rwa [Function.update_noteq hh]
    · rw [hmem]
      by_cases hh : h = f.hash
      · subst hh
        simp only [Function.update_same, mem_insertIndices, LoopIndex, List.mem_cons, or_and_right,
          exists_or, exists_eq_left, true_and, exists_loopBound_iff hc hn, or_assoc]
      · simp only [Function.update_noteq hh, LoopIndex, List.mem_cons, or_and_right, exists_or,
          exists_eq_left, Ne.symm hh, false_and, false_or]

/-- What `chunks_to_download` leaves when it returns `Ok` on a fresh downloader:
    the manifest is the store's, every set is duplicate-free, and the set of
    each entry's chunk-file hash holds exactly the indices of the entry's loop. -/
theorem chunksToDownload_fresh {store : IpfsStore} {ipfsHash : String} {pending : String → List Nat}
    {m : SubfileManifest} (h : chunksToDownload store ipfsHash (fun _ => []) = (pending, .ok m)) :
    store.manifests ipfsHash = some m ∧ (∀ h, (pending h).Nodup) ∧
      ∀ (k : Nat) (f : FileMetaInfo) (c : ChunkFile) (n : Nat), m.files[k]? = some f →
        store.chunkFiles f.hash = some c → loopBound c = .ok n → ∀ i, i ∈ pending f.hash ↔ i < n := by
  simp only [chunksToDownload] at h
  split at h
  · cases h
  rename_i m' hm
  rcases hl : chunksToDownloadLoop store m'.files fun _ => [] with ⟨p', r⟩
  cases r with
  | error e => simp [hl] at h
  | ok u =>
    simp only [hl, Prod.mk.injEq, Except.ok.injEq] at h
    obtain ⟨rfl, rfl⟩ := h
    obtain ⟨hnd, hmem⟩ := chunksToDownloadLoop_ok hl
    refine ⟨fetchSubfileFromIpfs_eq_ok.mp hm, fun h => hnd h List.nodup_nil,
      fun k f c n hf hc hn i => ?_⟩
    rw [hmem, ← exists_loopBound_iff hc hn]
    constructor
    · rintro (h | ⟨_, _, _, h⟩)
      · exact absurd h (List.not_mem_nil _)
      · exact h
    · exact fun h => .inr ⟨f, List.getElem?_mem hf, rfl, h⟩

/-! ## What `download_subfile` keeps of the map -/

/-- Task `t` wrote a body that verifies against its chunk's digest, at its
    chunk's offset; an empty body writes nothing. -/
def WroteVerified (env : DownloaderEnv) (s : State) (t : Nat) (task : Task) : Prop :=
  ∃ b, verifyChunk env.digest b task.spec.request.chunkHash = true ∧
    (b = [] ∨ Event.wrote t task.spec.path task.spec.request.start b ∈ s.log)

/-- What the map keeps along a run of `download_subfile` from `pending₀`: its sets
    stay duplicate-free and only lose indices; an index is out of its set only
    for a task of it that returned `Ok`; no such task's index is in its set; and
    such a task wrote a verified body. -/
structure PendingInv (env : DownloaderEnv) (pending₀ : String → List Nat) (s : State) : Prop where
  nodup : ∀ h, (s.pending h).Nodup
  subset : ∀ h, s.pending h ⊆ pending₀ h
  removed : ∀ h i, i ∈ pending₀ h → i ∉ s.pending h → ∃ (t : Nat) (task : Task), s.tasks[t]? = some task ∧
    task.spec.request.fileHash = h ∧ task.spec.index = i ∧ task.phase = .finished true
  finished : ∀ (t : Nat) (task : Task), s.tasks[t]? = some task → task.phase = .finished true →
    task.spec.index ∉ s.pending task.spec.request.fileHash
  wrote : ∀ (t : Nat) (task : Task), s.tasks[t]? = some task →
    task.phase = .returned true ∨ task.phase = .finished true →
    WroteVerified env s t task

section
variable {env : DownloaderEnv} {pending₀ : String → List Nat} {s s' : State}

theorem WroteVerified.mono (hlog : s.log <+: s'.log) {t : Nat} {task : Task}
    (h : WroteVerified env s t task) : WroteVerified env s' t task :=
  let ⟨b, hv, hw⟩ := h
  ⟨b, hv, hw.imp_right fun hw => hlog.subset hw⟩

/-- A step that leaves the map alone, touches no finished task and makes no task
    return `Ok` keeps `PendingInv`. -/
theorem PendingInv.of_frame (hinv : PendingInv env pending₀ s) (hpending : s'.pending = s.pending)
    (hlog : s.log <+: s'.log)
    (hfin : ∀ (t : Nat) (task : Task), s.tasks[t]? = some task → task.phase = .finished true →
      s'.tasks[t]? = some task)
    (hold : ∀ (t : Nat) (task : Task), s'.tasks[t]? = some task → task.phase = .returned true ∨
      task.phase = .finished true → s.tasks[t]? = some task) :
    PendingInv env pending₀ s' := by
  refine ⟨by rw [hpending]; exact hinv.nodup, by rw [hpending]; exact hinv.subset,
    fun h i hi hout => ?_, fun t task ht hph => ?_,
    fun t task ht hph => (hinv.wrote t task (hold t task ht hph) hph).mono hlog⟩
  · obtain ⟨t, task, ht, hh, hidx, hph⟩ := hinv.removed h i hi (by rwa [hpending] at hout)
    exact ⟨t, task, hfin t task ht hph, hh, hidx, hph⟩
  · rw [hpending]
    exact hinv.finished t task (hold t task ht (.inr hph)) hph

/-- A pass of a task: a pass that returns `Ok` wrote its verified body. -/
theorem PendingInv.taskStep (hinv : PendingInv env pending₀ s) {t : Nat} {reply : RangeReply}
    {io : WriteIo} (h : taskStep env s t reply io = some s') : PendingInv env pending₀ s' := by
  have hstep : step env s (.task t reply io) = some s' := h
  have hfin : ∀ (t : Nat) (task : Task), s.tasks[t]? = some task → task.phase = .finished true →
      s'.tasks[t]? = some task := fun _ _ ht hph => step_getElem?_finished hstep ht hph
  obtain ⟨task, ht, hrun, ⟨-, rfl⟩ | ⟨-, -, -, -, hpending, htasks, hlog, -⟩⟩ := taskStep_eq_some h
  · refine hinv.of_frame rfl (List.prefix_refl _) hfin fun t' task' ht' hph => ?_
    rcases getElem?_set_eq_some ht' with ⟨-, rfl⟩ | ⟨-, ht'⟩
    · simp at hph
    · exact ht'
  set a := attempt env.digest task.spec.request task.attempts (rangeReplyResult reply) io
  have hlog' : s.log <+: s'.log := hlog ▸ List.prefix_append _ _
  refine ⟨?_, ?_, fun h i hi hout => ?_, fun t' task' ht' hph => ?_, fun t' task' ht' hph => ?_⟩
  · rw [hpending]; exact hinv.nodup
  · rw [hpending]; exact hinv.subset
  · obtain ⟨t', task', ht', hh, hidx, hph⟩ := hinv.removed h i hi (by rwa [hpending] at hout)
    exact ⟨t', task', hfin t' task' ht' hph, hh, hidx, hph⟩
  · rw [htasks] at ht'
    rcases getElem?_set_eq_some ht' with ⟨-, rfl⟩ | ⟨-, ht'⟩
    · exact absurd hph (Attempt.phase_ne_finished _ _)
    · rw [hpending]; exact hinv.finished t' task' ht' hph
  · rw [htasks] at ht'
    rcases getElem?_set_eq_some ht' with ⟨rfl, rfl⟩ | ⟨-, ht'⟩
    · rcases hph with hph | hph
      · obtain ⟨data, hd⟩ := Attempt.phase_eq_returned_true hph
        obtain ⟨-, hv⟩ := attempt_eq_wrote hd
        refine ⟨data, hv, ?_⟩
        by_cases hw : data = []
        · exact .inl hw
        · have hw' : a.written ≠ [] := by rw [hd]; exact hw
          refine .inr ?_
          rw [hlog, if_neg hw', hd]
          simp [Attempt.written]
      · exact absurd hph (Attempt.phase_ne_finished _ _)
    · exact (hinv.wrote t' task' ht' hph).mono hlog'

/-- `chunks_to_download.entry(h₀).remove(i₀)` removes `i₀` from the set of `h₀`
    and nothing else. -/
theorem mem_update_erase {p : String → List Nat} {h₀ : String} (hnd : (p h₀).Nodup) (i₀ : Nat)
    (h : String) (i : Nat) :
    i ∈ Function.update p h₀ ((p h₀).erase i₀) h ↔ i ∈ p h ∧ ¬ (h = h₀ ∧ i = i₀) := by
  by_cases hh : h = h₀
  · subst hh
    rw [Function.update_same, hnd.mem_erase_iff]
    simp only [true_and]
    exact and_comm
  · simp [Function.update_noteq hh, hh]

theorem nodup_update_erase {p : String → List Nat} (hnd : ∀ h, (p h).Nodup) (h₀ : String) (i₀ : Nat)
    (h : String) : (Function.update p h₀ ((p h₀).erase i₀) h).Nodup := by
  by_cases hh : h = h₀
  · subst hh
    rw [Function.update_same]
    exact (hnd _).erase _
  · rw [Function.update_noteq hh]
    exact hnd h

/-- The completion hook of a task that returned `Ok` removes its index, and no other. -/
theorem PendingInv.completeStep (hinv : PendingInv env pending₀ s) {t : Nat}
    (h : completeStep s t = some s') : PendingInv env pending₀ s' := by
  have hstep : step env s (.complete t) = some s' := h
  have hfin : ∀ (t : Nat) (task : Task), s.tasks[t]? = some task → task.phase = .finished true →
      s'.tasks[t]? = some task := fun _ _ ht hph => step_getElem?_finished hstep ht hph
  obtain ⟨task, ht, ⟨hph, rfl⟩ | ⟨hph, rfl⟩⟩ := completeStep_eq_some h
  · set h₀ := task.spec.request.fileHash
    have hmem := mem_update_erase (hinv.nodup h₀) task.spec.index
    refine ⟨nodup_update_erase hinv.nodup _ _, fun h i hi => (hmem h i).mp hi |>.1 |> hinv.subset h,
      fun h i hi hout => ?_, fun t' task' ht' hph' => ?_, fun t' task' ht' hph' => ?_⟩
    · by_cases hself : h = h₀ ∧ i = task.spec.index
      · obtain ⟨rfl, rfl⟩ := hself
        exact ⟨t, _, List.getElem?_set_self (List.getElem?_eq_some_iff.mp ht).1, rfl, rfl, rfl⟩
      · obtain ⟨t', task', ht', hh, hidx, hph'⟩ :=
          hinv.removed h i hi fun hin => hout ((hmem h i).mpr ⟨hin, hself⟩)
        exact ⟨t', task', hfin t' task' ht' hph', hh, hidx, hph'⟩
    · rcases getElem?_set_eq_some ht' with ⟨-, rfl⟩ | ⟨-, ht'⟩
      · exact fun hin => ((hmem _ _).mp hin).2 ⟨rfl, rfl⟩
      · exact fun hin => hinv.finished t' task' ht' hph' ((hmem _ _).mp hin).1
    · rcases getElem?_set_eq_some ht' with ⟨rfl, rfl⟩ | ⟨-, ht'⟩
      · exact hinv.wrote _ task ht (.inl hph)
      · exact hinv.wrote t' task' ht' hph'
  · refine hinv.of_frame rfl (List.prefix_refl _) hfin fun t' task' ht' hph' => ?_
    rcases getElem?_set_eq_some ht' with ⟨-, rfl⟩ | ⟨-, ht'⟩
    · simp at hph'
    · exact ht'

/-- Every step of `download_subfile` keeps `PendingInv`. -/
theorem PendingInv.step (hinv : PendingInv env pending₀ s) {c : Choice}
    (h : step env s c = some s') : PendingInv env pending₀ s' := by
  have hfin : ∀ (t : Nat) (task : Task), s.tasks[t]? = some task → task.phase = .finished true →
      s'.tasks[t]? = some task := fun _ _ ht hph => step_getElem?_finished h ht hph
  cases c with
  | main =>
    have hmove := mainStep_move h
    refine hinv.of_frame hmove.pending_eq hmove.log_grows hfin fun t task ht hph => ?_
    rcases hmove.getElem?_tasks ht with ht | hrun
    · exact ht
    · rcases hph with hph | hph <;> rw [hph] at hrun <;> cases hrun
  | probe =>
    obtain ⟨_, _, _, _, _, _, _, _, -, -, rfl⟩ := probeStep_eq_some h
    exact hinv.of_frame rfl (List.prefix_append _ _) hfin fun _ _ ht _ => ht
  | task => exact hinv.taskStep h
  | complete => exact hinv.completeStep h

end

/-! ## The two index loops -/

/-- The entry and index of each spawned task, by task id. -/
def slots (specs : List TaskSpec) : List (Nat × Nat) := specs.map fun sp => (sp.file, sp.index)

/-- Where the current entry's download is, as far as its tasks go: in the index
    loop, the handles are the tasks of the first indices, in order, and the entry
    has no other task; in the joins, every index of the loop has a task, the
    handles left are those of the last indices, and as long as none failed,
    every index joined so far has a task that completed with `Ok`. -/
def LoopPhase (env : DownloaderEnv) (s : State) (m : SubfileManifest) (k : Nat) : FilePhase → Prop
  | .spawning _ c _ _ i n handles =>
    loopBound c = .ok n ∧ i ≤ n ∧ handles.length = i ∧
      (∀ j t, handles[j]? = some t → SpawnedAt s k t j) ∧
      ∀ sp ∈ s.tasks.map Task.spec, sp.file = k → sp.index < i
  | .joining handles failed =>
    ∃ f c n, m.files[k]? = some f ∧ env.store.chunkFiles f.hash = some c ∧ loopBound c = .ok n ∧
      handles.length ≤ n ∧ (∀ i < n, ∃ t, SpawnedAt s k t i) ∧
      (∀ j t, handles[j]? = some t → SpawnedAt s k t (n - handles.length + j)) ∧
      (failed = 0 → ∀ i, i + handles.length < n → TaskDone s k i)
  | _ => True

/-- What the index loops keep: every task's index is below its chunk file's loop
    bound, no two tasks have the same entry and index, and `LoopPhase`. -/
structure LoopInv (env : DownloaderEnv) (s : State) : Prop where
  bound : ∀ sp ∈ s.tasks.map Task.spec, ∃ n, loopBound sp.chunkFile = .ok n ∧ sp.index < n
  unique : (slots (s.tasks.map Task.spec)).Nodup
  current : ∀ m k ph, s.main = .file m k ph → LoopPhase env s m k ph

section
variable {env : DownloaderEnv} {s s' : State}

/-- Two tasks with the same entry and index are one task. -/
theorem LoopInv.eq_of_slot (hl : LoopInv env s) {t t' : Nat} {task task' : Task}
    (ht : s.tasks[t]? = some task) (ht' : s.tasks[t']? = some task')
    (hfile : task.spec.file = task'.spec.file) (hidx : task.spec.index = task'.spec.index) : t = t' :=
  List.getElem?_inj (by simpa [slots] using (List.getElem?_eq_some_iff.mp ht).1) hl.unique
    (by simp [slots, ht, ht', hfile, hidx])

theorem spawnedAt_iff_of_specs (hsp : s'.tasks.map Task.spec = s.tasks.map Task.spec)
    {k t i : Nat} : SpawnedAt s' k t i ↔ SpawnedAt s k t i := by
  simp only [SpawnedAt, State.spec?, ← List.getElem?_map, hsp]

/-- A step that changes no task's spec keeps the phase's facts. -/
theorem LoopPhase.of_step {c : Choice} (hstep : step env s c = some s')
    (hsp : s'.tasks.map Task.spec = s.tasks.map Task.spec) {m : SubfileManifest} {k : Nat}
    {ph : FilePhase} (h : LoopPhase env s m k ph) : LoopPhase env s' m k ph := by
  cases ph with
  | spawning =>
    obtain ⟨hn, hi, hlen, hspawn, hlt⟩ := h
    exact ⟨hn, hi, hlen, fun j t ht => (spawnedAt_iff_of_specs hsp).mpr (hspawn j t ht),
      by rw [hsp]; exact hlt⟩
  | joining =>
    obtain ⟨f, c, n, hf, hc, hn, hlen, hall, hspawn, hdone⟩ := h
    exact ⟨f, c, n, hf, hc, hn, hlen, fun i hi => (hall i hi).imp fun t => (spawnedAt_iff_of_specs hsp).mpr,
      fun j t ht => (spawnedAt_iff_of_specs hsp).mpr (hspawn j t ht),
      fun h0 i hi => (hdone h0 i hi).step hstep⟩
  | _ => trivial

theorem LoopInv.of_specs (hl : LoopInv env s) (hsp : s'.tasks.map Task.spec = s.tasks.map Task.spec)
    (hcur : ∀ m k ph, s'.main = .file m k ph → LoopPhase env s' m k ph) : LoopInv env s' :=
  ⟨by rw [hsp]; exact hl.bound, by rw [hsp]; exact hl.unique, hcur⟩

/-- The main task: the index loop starts on an entry with no task, spawns the
    next index, hands all `n` handles to the joins, and a join of a task that
    completed with `Ok` adds its index to those done. -/
theorem LoopInv.mainMove (hinv : Inv env s) (hl : LoopInv env s) (hmove : MainMove env s s') :
    LoopInv env s' := by
  cases hmove with
  | fetchManifest | fetchChunkFile | fetchChunkFileFailed | probesDone | spawnFailed
  | joinMetadataFailed | joinPanicked =>
    exact hl.of_specs rfl fun _ _ _ h => by cases h; trivial
  | fetchManifestFailed | finish | fetchChunkFilePanicked | createLoopPanicked | createFailed
  | spawnPanicked => exact hl.of_specs rfl fun _ _ _ h => by cases h
  | joinedAll => split_ifs <;> exact hl.of_specs rfl fun _ _ _ h => by cases h; trivial
  | @create m k f c eps n hm hn =>
    refine hl.of_specs rfl fun _ _ _ h => ?_
    cases h
    have hord := hinv.main
    rw [hm] at hord
    refine ⟨hn, Nat.zero_le _, rfl, by simp, fun sp hsp hk => ?_⟩
    have := hord.2.1.2 sp hsp
    simp [FilePhase.spawned] at this
    omega
  | @spawn m k f c eps path i n draw handles r hm hi hr =>
    obtain ⟨hn, -, hlen, hspawn, hlt⟩ := hl.current _ _ _ hm
    have hsp : s.tasks.map Task.spec <+:
        (s.tasks ++ [({ spec := ⟨k, i, c, path, r⟩, attempts := 0, phase := .running } : Task)]).map
          Task.spec := by
      rw [List.map_append]; exact List.prefix_append _ _
    refine ⟨fun sp hsp' => ?_, ?_, fun _ _ _ h => ?_⟩
    · rcases mem_map_concat hsp' with hsp' | rfl
      · exact hl.bound sp hsp'
      · exact ⟨n, hn, hi⟩
    · rw [slots, List.map_append, List.map_append]
      refine List.nodup_append.mpr ⟨hl.unique, List.nodup_singleton _,
        List.disjoint_singleton.mpr fun hmem => ?_⟩
      obtain ⟨sp, hsp', hki⟩ := List.mem_map.mp hmem
      cases hki
      exact absurd (hlt sp hsp' rfl) (Nat.lt_irrefl _)
    · cases h
      refine ⟨hn, hi, by rw [List.length_append, hlen]; rfl, fun j t ht => ?_, fun sp hsp' hk => ?_⟩
      · rcases getElem?_concat_eq_some ht with ht | ⟨rfl, rfl⟩
        · exact (hspawn j t ht).mono hsp
        · exact ⟨⟨k, i, c, path, r⟩, by rw [State.spec?, List.getElem?_concat_length]; rfl, rfl, hlen.symm⟩
      · rcases mem_map_concat hsp' with hsp' | rfl
        · exact Nat.lt_succ_of_lt (hlt sp hsp' hk)
        · exact Nat.lt_succ_self _
  | @loopDone m k f c eps path i n handles hm hi =>
    refine hl.of_specs rfl fun _ _ _ h => ?_
    cases h
    obtain ⟨hn, hin, hlen, hspawn, -⟩ := hl.current _ _ _ hm
    have hmain := hinv.main
    rw [hm] at hmain
    obtain ⟨-, -, hf, hcf, -⟩ := hmain
    refine ⟨f, c, n, hf, hcf, hn, by omega,
      fun i hi => have hi' : i < handles.length := by omega
        ⟨handles[i], hspawn i _ (List.getElem?_eq_getElem hi')⟩,
      fun j t ht => by rw [show n - handles.length + j = j by omega]; exact hspawn j t ht,
      fun _ i hi => absurd hi (by omega)⟩
  | @joinOk m k t failed handles task hm ht hph =>
    refine hl.of_specs rfl fun _ _ _ h => ?_
    cases h
    obtain ⟨f, c, n, hf, hcf, hn, hlen, hall, hspawn, hdone⟩ := hl.current _ _ _ hm
    obtain ⟨sp, hsp, hfile, hidx⟩ := hspawn 0 t List.getElem?_cons_zero
    have htask : task.spec = sp := by simpa [State.spec?, ht] using hsp
    rw [List.length_cons] at hlen hidx
    refine ⟨f, c, n, hf, hcf, hn, by omega, hall, spawnedAt_tail (by simpa using hlen) hspawn,
      fun h0 i hi => ?_⟩
    by_cases hlast : i + (handles.length + 1) < n
    · exact hdone h0 i (by simpa using hlast)
    · exact ⟨t, task, ht, htask ▸ hfile, by rw [htask, hidx]; omega, hph⟩
  | @joinErr m k t failed handles task hm ht hph =>
    refine hl.of_specs rfl fun _ _ _ h => ?_
    cases h
    obtain ⟨f, c, n, hf, hcf, hn, hlen, hall, hspawn, -⟩ := hl.current _ _ _ hm
    exact ⟨f, c, n, hf, hcf, hn, by simp at hlen; omega, hall, spawnedAt_tail hlen hspawn,
      fun h0 => absurd h0 (Nat.succ_ne_zero _)⟩

theorem LoopInv.step (hinv : Inv env s) (hl : LoopInv env s) {c : Choice}
    (h : step env s c = some s') : LoopInv env s' := by
  cases c with
  | main => exact hl.mainMove hinv (mainStep_move h)
  | probe =>
    obtain ⟨_, _, _, _, _, _, _, _, -, -, rfl⟩ := probeStep_eq_some h
    exact hl.of_specs rfl fun _ _ _ h => by cases h; trivial
  | task =>
    have hsp := taskStep_specs h
    refine hl.of_specs hsp fun m k ph hm => (hl.current m k ph ?_).of_step h hsp
    obtain ⟨_, -, -, ⟨-, rfl⟩ | ⟨-, hmain, -⟩⟩ := taskStep_eq_some h
    · exact hm
    · rwa [← hmain]
  | complete =>
    have hsp := completeStep_specs h
    refine hl.of_specs hsp fun m k ph hm => (hl.current m k ph ?_).of_step h hsp
    obtain ⟨_, -, ⟨-, rfl⟩ | ⟨-, rfl⟩⟩ := completeStep_eq_some h <;> exact hm

theorem Reachable.loopInv (hs : Reachable env s) : LoopInv env s := by
  induction hs with
  | initial => exact ⟨fun _ h => by simp [State.initial] at h, List.nodup_nil, fun _ _ _ h => by cases h⟩
  | step hs hstep ih => exact ih.step hs.inv hstep

end

section
variable {env : DownloaderEnv} {pending₀ : String → List Nat} {s : State}

theorem PendingInv.initial (hnodup : ∀ h, (pending₀ h).Nodup) (blocklist : List String)
    (files : List String → Option Bytes) : PendingInv env pending₀ (.initial blocklist pending₀ files) :=
  ⟨hnodup, fun _ => List.Subset.refl _, fun _ _ hi hout => absurd hi hout,
    fun _ _ h => by simp [State.initial] at h, fun _ _ h => by simp [State.initial] at h⟩

theorem PendingInv.run : ∀ {s s' : State} {cs : List Choice}, PendingInv env pending₀ s →
    SubfileExchange.run env s cs = some s' → PendingInv env pending₀ s'
  | _, _, [], hinv, h => by cases h; exact hinv
  | _, _, c :: cs, hinv, h => by
    simp only [SubfileExchange.run, Option.bind_eq_some] at h
    obtain ⟨s₁, h₁, h⟩ := h
    exact PendingInv.run (hinv.step h₁) h

/-- `download_subfile` on a new downloader: nothing calls `chunks_to_download`,
    so the map starts empty, and no step puts an index into it. -/
theorem run_fresh_pending_eq_nil {env : DownloaderEnv} {blocklist : List String}
    {files : List String → Option Bytes} {cs : List Choice} {s : State}
    (hrun : run env (.initial blocklist (fun _ => []) files) cs = some s) (h : String) :
    s.pending h = [] := by
  have hinit : PendingInv env (fun _ => []) (.initial blocklist (fun _ => []) files) :=
    .initial (fun _ => List.nodup_nil) blocklist files
  exact List.eq_nil_iff_forall_not_mem.mpr fun _ hi =>
    List.not_mem_nil _ ((hinit.run hrun).subset h hi)

end

/-! ## The map along a run -/

/-- The map holds, for each entry's chunk-file hash, exactly the indices of the
    entry's index loop. -/
def LoopIndices (env : DownloaderEnv) (m : SubfileManifest) (pending : String → List Nat) : Prop :=
  ∀ (k : Nat) (f : FileMetaInfo) (c : ChunkFile) (n : Nat), m.files[k]? = some f →
    env.store.chunkFiles f.hash = some c → loopBound c = .ok n → ∀ i, i ∈ pending f.hash ↔ i < n

/-- No other entry of `m` has the chunk-file hash of entry `k`, `f`. -/
def HashUnshared (m : SubfileManifest) (k : Nat) (f : FileMetaInfo) : Prop :=
  ∀ j (f' : FileMetaInfo), m.files[j]? = some f' → f'.hash = f.hash → j = k

/-- Task `t`, spawned for index `i` of an entry of `m` whose chunk-file hash is
    `h`, completed with `Ok` after writing, at offset `i * chunk_size` of the
    entry's output file, a chunk that verifies against digest `i` of the chunk
    file stored under `h`; an empty chunk writes nothing. -/
def CompletedChunk (env : DownloaderEnv) (m : SubfileManifest) (s : State) (h : String) (i t : Nat) :
    Prop :=
  ∃ (task : Task) (f : FileMetaInfo) (c : ChunkFile) (hh : String) (data : Bytes),
    s.tasks[t]? = some task ∧ task.phase = .finished true ∧ task.spec.index = i ∧
    m.files[task.spec.file]? = some f ∧ f.hash = h ∧ env.store.chunkFiles h = some c ∧
    c.chunkHashes[i]? = some hh ∧ verifyChunk env.digest data hh = true ∧
    (data = [] ∨ Event.wrote t (outputLocation env f) (i * c.chunkSize.toNat) data ∈ s.log)

/-- What `chunks_to_download` holds in a state of `download_subfile` run from the
    map `pending₀` that `chunks_to_download` filled for the manifest `m`. -/
structure PendingOk (env : DownloaderEnv) (pending₀ : String → List Nat) (m : SubfileManifest)
    (s : State) : Prop where
  /-- The map started with exactly the indices of each entry's index loop. -/
  initial : LoopIndices env m pending₀
  /-- Every task was spawned for an index the map started with. -/
  spawned : ∀ (t : Nat) (task : Task), s.tasks[t]? = some task →
    task.spec.index ∈ pending₀ task.spec.request.fileHash
  /-- Once an entry's loop has handed its handles to the joins, each index the map
      started with for the entry's hash has a task of the entry. -/
  joined : ∀ k handles failed (f : FileMetaInfo), s.main = .file m k (.joining handles failed) →
    m.files[k]? = some f → ∀ i ∈ pending₀ f.hash, ∃ t, SpawnedAt s k t i
  /-- Indices only leave the map. -/
  shrinks : ∀ h, s.pending h ⊆ pending₀ h
  /-- An index leaves the map only through a task for it that completed with `Ok`
      after writing a verified chunk at the index's offset. -/
  removed : ∀ h i, i ∈ pending₀ h → i ∉ s.pending h → ∃ t, CompletedChunk env m s h i t
  /-- A call of `download_chunk_file` returns `Ok` only with its hash's set empty. -/
  emptyOnOk : ∀ k (f : FileMetaInfo), s.main = .file m k (.joining [] 0) → m.files[k]? = some f →
    s.pending f.hash = []
  /-- When no other entry shares the hash, the index of a task that failed stays. -/
  failedKept : ∀ k (f : FileMetaInfo) (t : Nat) (task : Task), m.files[k]? = some f →
    HashUnshared m k f → s.tasks[t]? = some task → task.spec.file = k →
    task.phase = .finished false → task.spec.index ∈ s.pending f.hash
  /-- Once each index has a task of the entry and they all finished, an index in
      the set is one whose task failed. -/
  settled : ∀ k (f : FileMetaInfo), m.files[k]? = some f →
    (∀ i ∈ pending₀ f.hash, ∃ t, SpawnedAt s k t i) →
    (∀ (t : Nat) (task : Task), s.tasks[t]? = some task → task.spec.file = k →
      ∃ b, task.phase = .finished b) →
    ∀ i ∈ s.pending f.hash, ∃ (t : Nat) (task : Task), s.tasks[t]? = some task ∧
      task.spec.file = k ∧ task.spec.index = i ∧ task.phase = .finished false

/-- A state of a run from the map that `chunks_to_download` filled for `m`, with
    the invariants the run keeps. -/
structure PendingRun (env : DownloaderEnv) (pending₀ : String → List Nat) (m : SubfileManifest)
    (s : State) : Prop where
  manifest : env.store.manifests env.ipfsHash = some m
  loopIndices : LoopIndices env m pending₀
  inv : Inv env s
  loop : LoopInv env s
  pending : PendingInv env pending₀ s

section
variable {env : DownloaderEnv} {pending₀ : String → List Nat} {m : SubfileManifest} {s : State}

/-- A task belongs to an entry of `m`, with the entry's hash, chunk file and
    output file, at an index below the loop bound. -/
theorem PendingRun.task_entry (hr : PendingRun env pending₀ m s) {t : Nat} {task : Task}
    (ht : s.tasks[t]? = some task) :
    ∃ f n, m.files[task.spec.file]? = some f ∧ task.spec.request.fileHash = f.hash ∧
      env.store.chunkFiles f.hash = some task.spec.chunkFile ∧ task.spec.path = outputLocation env f ∧
      loopBound task.spec.chunkFile = .ok n ∧ task.spec.index < n := by
  have hsp : task.spec ∈ s.tasks.map Task.spec := List.mem_map_of_mem _ (List.getElem?_mem ht)
  obtain ⟨m', f, hm', hf, hc, hpath, hfh⟩ := (hr.inv.specs _ hsp).entry
  cases hr.manifest.symm.trans hm'
  obtain ⟨n, hn, hi⟩ := hr.loop.bound _ hsp
  exact ⟨f, n, hf, hfh, hc, hpath, hn, hi⟩

theorem PendingRun.index_mem (hr : PendingRun env pending₀ m s) {t : Nat} {task : Task}
    (ht : s.tasks[t]? = some task) : task.spec.index ∈ pending₀ task.spec.request.fileHash := by
  obtain ⟨f, n, hf, hfh, hc, -, hn, hi⟩ := hr.task_entry ht
  rw [hfh]
  exact (hr.loopIndices _ f _ n hf hc hn _).mpr hi

theorem PendingRun.spawnedAt_of_joining (hr : PendingRun env pending₀ m s) {k failed : Nat}
    {handles : List Nat} (hmain : s.main = .file m k (.joining handles failed)) {f : FileMetaInfo}
    (hf : m.files[k]? = some f) : ∀ i ∈ pending₀ f.hash, ∃ t, SpawnedAt s k t i := by
  obtain ⟨f', c, n, hf', hc, hn, -, hall, -⟩ := hr.loop.current _ _ _ hmain
  cases hf.symm.trans hf'
  exact fun i hi => hall i ((hr.loopIndices k f c n hf hc hn i).mp hi)

theorem PendingRun.completedChunk (hr : PendingRun env pending₀ m s) {h : String} {i : Nat}
    (hi : i ∈ pending₀ h) (hout : i ∉ s.pending h) : ∃ t, CompletedChunk env m s h i t := by
  obtain ⟨t, task, ht, rfl, rfl, hph⟩ := hr.pending.removed h i hi hout
  obtain ⟨f, -, hf, hfh, hc, hpath, -⟩ := hr.task_entry ht
  have hok := hr.inv.specs _ (List.mem_map_of_mem _ (List.getElem?_mem ht))
  obtain ⟨-, -, hstart, -⟩ := chunkRange_eq_ok.mp hok.range
  obtain ⟨b, hv, hw⟩ := hr.pending.wrote t task ht (.inr hph)
  refine ⟨t, task, f, task.spec.chunkFile, task.spec.request.chunkHash, b, ht, hph, rfl, hf,
    hfh.symm, hfh ▸ hc, hok.hash, hv, ?_⟩
  rwa [← hpath, ← hstart]

/-- A call that joined every handle with no failure has emptied its hash's set. -/
theorem PendingRun.pending_eq_nil (hr : PendingRun env pending₀ m s) {k : Nat}
    (hmain : s.main = .file m k (.joining [] 0)) {f : FileMetaInfo} (hf : m.files[k]? = some f) :
    s.pending f.hash = [] := by
  obtain ⟨f', c, n, hf', hc, hn, -, -, -, hdone⟩ := hr.loop.current _ _ _ hmain
  cases hf.symm.trans hf'
  refine List.eq_nil_iff_forall_not_mem.mpr fun i hmem => ?_
  have hi := (hr.loopIndices k f c n hf hc hn i).mp (hr.pending.subset _ hmem)
  obtain ⟨t, task, ht, rfl, rfl, hph⟩ := hdone rfl i (by simpa using hi)
  obtain ⟨f'', -, hf'', hfh, -⟩ := hr.task_entry ht
  cases hf.symm.trans hf''
  exact hr.pending.finished t task ht hph (hfh ▸ hmem)

/-- When no other entry shares the hash, no task of another entry can remove the
    index of a task that failed. -/
theorem PendingRun.failed_mem (hr : PendingRun env pending₀ m s) {k t : Nat} {f : FileMetaInfo}
    {task : Task} (hf : m.files[k]? = some f) (hun : HashUnshared m k f)
    (ht : s.tasks[t]? = some task) (hk : task.spec.file = k) (hph : task.phase = .finished false) :
    task.spec.index ∈ s.pending f.hash := by
  obtain ⟨f', -, hf', hfh, -⟩ := hr.task_entry ht
  rw [hk, hf] at hf'
  cases hf'
  by_contra hout
  obtain ⟨t', task', ht', hfh', hidx, hph'⟩ :=
    hr.pending.removed _ _ (hfh ▸ hr.index_mem ht) hout
  obtain ⟨f'', -, hf'', hfh'', -⟩ := hr.task_entry ht'
  have hk' : task'.spec.file = k := hun _ _ hf'' (hfh''.symm.trans hfh')
  cases hr.loop.eq_of_slot ht ht' (hk.trans hk'.symm) hidx.symm
  rw [ht] at ht'
  cases ht'
  rw [hph] at hph'
  cases hph'

/-- An index still in the set whose task finished is one whose task failed. -/
theorem PendingRun.failed_of_mem (hr : PendingRun env pending₀ m s) {k : Nat} {f : FileMetaInfo}
    (hf : m.files[k]? = some f) (hall : ∀ i ∈ pending₀ f.hash, ∃ t, SpawnedAt s k t i)
    (hfin : ∀ (t : Nat) (task : Task), s.tasks[t]? = some task → task.spec.file = k →
      ∃ b, task.phase = .finished b)
    {i : Nat} (hi : i ∈ s.pending f.hash) : ∃ (t : Nat) (task : Task), s.tasks[t]? = some task ∧
      task.spec.file = k ∧ task.spec.index = i ∧ task.phase = .finished false := by
  obtain ⟨t, sp, hsp, hk, rfl⟩ := hall i (hr.pending.subset _ hi)
  obtain ⟨task, ht, rfl⟩ := Option.map_eq_some'.mp hsp
  obtain ⟨f', -, hf', hfh, -⟩ := hr.task_entry ht
  rw [hk, hf] at hf'
  cases hf'
  obtain ⟨b, hb⟩ := hfin t task ht hk
  cases b
  · exact ⟨t, task, ht, hk, rfl, hb⟩
  · exact absurd (hfh ▸ hi) (hr.pending.finished t task ht hb)

theorem PendingRun.pendingOk (hr : PendingRun env pending₀ m s) : PendingOk env pending₀ m s :=
  ⟨hr.loopIndices, fun _ _ => hr.index_mem, fun _ _ _ _ hmain hf => hr.spawnedAt_of_joining hmain hf, hr.pending.subset,
    fun _ _ => hr.completedChunk, fun _ _ hmain hf => hr.pending_eq_nil hmain hf, fun _ _ _ _ => hr.failed_mem,
    fun _ _ hf hall hfin _ => hr.failed_of_mem hf hall hfin⟩

end

/-! ## From a map filled by `chunks_to_download` -/

section
variable {env : DownloaderEnv} {pending₀ : String → List Nat} {m : SubfileManifest} {s : State}

/-- From the map that `chunks_to_download` filled on a fresh downloader, every
    state of a run of `download_subfile` satisfies `PendingOk`, whatever the
    endpoints answer, the writes do and the order the threads take. -/
theorem chunksToDownload_pending
    (hinit : chunksToDownload env.store env.ipfsHash (fun _ => []) = (pending₀, .ok m))
    {blocklist : List String} {files : List String → Option Bytes} {cs : List Choice}
    (hrun : run env (.initial blocklist pending₀ files) cs = some s) : PendingOk env pending₀ m s := by
  obtain ⟨hm, hnodup, hloop⟩ := chunksToDownload_fresh hinit
  have hs := (Reachable.initial blocklist pending₀ files).run hrun
  exact PendingRun.pendingOk
    ⟨hm, hloop, hs.inv, hs.loopInv, (PendingInv.initial hnodup blocklist files).run hrun⟩

theorem chunksToDownload_pending_example :
    ∃ (pending₀ : String → List Nat) (m : SubfileManifest) (s : State),
      chunksToDownload (exampleEnv ["http://a"]).store (exampleEnv ["http://a"]).ipfsHash
        (fun _ => []) = (pending₀, .ok m) ∧
      run (exampleEnv ["http://a"]) (.initial [] pending₀ (fun _ => none)) exampleRun = some s ∧
      PendingOk (exampleEnv ["http://a"]) pending₀ m s := by
  have hinit : chunksToDownload (exampleEnv ["http://a"]).store (exampleEnv ["http://a"]).ipfsHash
      (fun _ => []) = ((chunksToDownload (exampleStore "a.bin" exampleChunkFile) "m" (fun _ => [])).1,
        .ok (exampleManifest "a.bin")) := rfl
  obtain ⟨s, hrun⟩ := Option.isSome_iff_exists.mp (show (run (exampleEnv ["http://a"])
    (.initial [] (chunksToDownload (exampleStore "a.bin" exampleChunkFile) "m" (fun _ => [])).1
      (fun _ => none)) exampleRun).isSome = true by decide)
  exact ⟨_, _, s, hinit, hrun, chunksToDownload_pending hinit hrun⟩

/-- For an entry whose chunk-file hash no other entry has, once each index of its
    loop has a task of the entry and all of them finished, the set is exactly the
    indices whose task failed. -/
theorem PendingOk.mem_iff_failed (hok : PendingOk env pending₀ m s) {k : Nat} {f : FileMetaInfo}
    (hf : m.files[k]? = some f) (hun : HashUnshared m k f)
    (hall : ∀ i ∈ pending₀ f.hash, ∃ t, SpawnedAt s k t i)
    (hfin : ∀ (t : Nat) (task : Task), s.tasks[t]? = some task → task.spec.file = k →
      ∃ b, task.phase = .finished b) (i : Nat) :
    i ∈ s.pending f.hash ↔ ∃ (t : Nat) (task : Task), s.tasks[t]? = some task ∧
      task.spec.file = k ∧ task.spec.index = i ∧ task.phase = .finished false :=
  ⟨hok.settled k f hf hall hfin i, fun ⟨t, task, ht, hk, hi, hph⟩ =>
    hi ▸ hok.failedKept k f t task hf hun ht hk hph⟩

end

/-! ## Two entries with one chunk-file hash -/

/-- A manifest whose two entries have the chunk-file hash `c`. -/
def sharedStore : IpfsStore where
  manifests h := if h = "m" then some ⟨[⟨"a.bin", "c"⟩, ⟨"b.bin", "c"⟩], "", "", "", "", ⟨0, none⟩⟩
    else none
  chunkFiles h := if h = "c" then some exampleChunkFile else none

def sharedEnv : DownloaderEnv := { exampleEnv ["http://a"] with store := sharedStore }

/-- Entry 0's task for index 0 exhausts its one attempt and entry 0 fails; entry
    1 then downloads index 0 again. -/
def sharedRun : List Choice :=
  exampleSpawn 1 (fun _ => 0) ++ [.task 0 .transportError .ok, .task 1 (chunkReply 1) .ok,
    .complete 0, .complete 1, .main true 0, .main true 0, .main true 0] ++
  [.main true 0, .probe 0 servingStatus servingOperator, .main true 0, .main true 0, .main true 0,
    .main true 0, .main true 0, .task 2 (chunkReply 0) .ok, .complete 2]

/-- From the map `chunks_to_download` filled, the task of entry 0 for index 0
    fails, and the task of entry 1 for index 0 removes that index. -/
theorem failed_index_removed_by_shared_hash :
    ∃ (pending₀ : String → List Nat) (m : SubfileManifest) (s : State),
      chunksToDownload sharedEnv.store sharedEnv.ipfsHash (fun _ => []) = (pending₀, .ok m) ∧
      run sharedEnv (.initial [] pending₀ (fun _ => none)) sharedRun = some s ∧
      0 ∈ pending₀ "c" ∧
      (∃ task, s.tasks[0]? = some task ∧ task.spec.file = 0 ∧ task.spec.index = 0 ∧
        task.spec.request.fileHash = "c" ∧ task.phase = .finished false) ∧
      0 ∉ s.pending "c" := by
  obtain ⟨s, hrun, hp⟩ := Option.map_eq_some'.mp (show (run sharedEnv
      (.initial [] (chunksToDownload sharedStore "m" (fun _ => [])).1 (fun _ => none)) sharedRun).map
      (fun s => decide (s.tasks[0]?.map (fun t => (t.spec.file, t.spec.index, t.spec.request.fileHash,
        t.phase)) = some (0, 0, "c", .finished false)) && decide (0 ∉ s.pending "c")) = some true by
    decide)
  simp only [Bool.and_eq_true, decide_eq_true_eq, Option.map_eq_some', Prod.mk.injEq] at hp
  obtain ⟨⟨task, ht, hfile, hidx, hhash, hph⟩, hout⟩ := hp
  exact ⟨_, _, s, rfl, hrun, by decide, ⟨task, ht, hfile, hidx, hhash, hph⟩, hout⟩

end SubfileExchange
