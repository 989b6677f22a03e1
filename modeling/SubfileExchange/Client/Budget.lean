/-
  SubfileExchange.Client.Budget

  How many range requests a run of `download_subfile` sends, and what its
  blocklist holds.

  Each pass of `download_chunk_and_write_to_file` sends one request through
  `request_chunk`, and the loop gives up after `max(max_retry, 1)` passes
  (`attempt_retry`). In the downloader's state machine the passes of a task
  interleave with every other thread's moves; the log still holds one `sent`
  event per pass of each task (`BudgetInv`), and `download_chunk_file` spawns one
  task per entry and index (`LoopInv.unique`). So under every order of steps,
  index `i` of entry `k` is requested at most `max(chunk_max_retry, 1)` times
  (`reachable_requests_per_chunk`).

  The blocklist is written in two places: by `check_endpoint_availability`, with
  the url of an endpoint whose probe failed, and by the code that runs after
  `download_chunk_and_write_to_file` returned `Err`, with the task's
  `query_endpoint`, which is the url followed by `/subfiles/id/<hash>`. Over a
  whole run the blocklist is exactly the caller's entries and these
  (`run_blocklist_iff`).
-/
import SubfileExchange.Client.Pending

namespace SubfileExchange

/-! ## Requests per task -/

/-- Whether an event is a range request sent by task `t`. -/
def Event.sentBy (t : Nat) : Event → Bool
  | .sent t' _ _ => t' == t
  | _ => false

/-- The range requests a task has sent, one per pass: `attempts` counts the
    passes that asked for another, so a task that returned made one more. -/
def Task.sent (task : Task) : Nat :=
  match task.phase with
  | .returned _ | .finished _ => task.attempts + 1
  | .running | .panicked => task.attempts

/-- A task keeps to `max(max_retry, 1)` requests, and a running one has a pass left. -/
def Task.WithinBudget (task : Task) : Prop :=
  task.sent ≤ max task.spec.request.maxRetry 1 ∧
    (task.phase = .running → task.attempts < max task.spec.request.maxRetry 1)

/-- The log holds each task's requests and none of a task not spawned, and every
    task keeps to its budget. -/
structure BudgetInv (s : State) : Prop where
  sent : ∀ t, s.log.countP (Event.sentBy t) = (s.tasks[t]?.map Task.sent).getD 0
  within : ∀ task ∈ s.tasks, task.WithinBudget

/-- A pass of a running task sends one request and keeps it within budget. -/
theorem Task.WithinBudget.pass {task : Task} (hw : task.WithinBudget) (hrun : task.phase = .running)
    {a : Attempt} (hretry : a = .retry → task.attempts + 1 < task.spec.request.maxRetry) :
    Task.WithinBudget { task with
      attempts := if a = .retry then task.attempts + 1 else task.attempts, phase := a.phase } ∧
    Task.sent { task with
      attempts := if a = .retry then task.attempts + 1 else task.attempts, phase := a.phase } =
      task.sent + 1 := by
  have hlt := hw.2 hrun
  cases a <;> simp_all [Task.WithinBudget, Task.sent, Attempt.phase] <;> omega

section
variable {env : DownloaderEnv} {s s' : State}

/-- The main task adds to the tasks only a fresh running one, with no pass made. -/
theorem MainMove.tasks_eq (h : MainMove env s s') :
    s'.tasks = s.tasks ∨ ∃ sp, s'.tasks = s.tasks ++ [⟨sp, 0, .running⟩] := by
  cases h <;> first | exact .inl rfl | (split_ifs <;> exact .inl rfl) | exact .inr ⟨_, rfl⟩

theorem sent_getD_concat {l : List Task} {x : Task} (hx : x.sent = 0) (t : Nat) :
    ((l ++ [x])[t]?.map Task.sent).getD 0 = (l[t]?.map Task.sent).getD 0 := by
  rcases Nat.lt_or_ge t l.length with ht | ht
  · rw [List.getElem?_append_left ht]
  · rw [List.getElem?_append_right ht, List.getElem?_eq_none ht]
    cases t - l.length <;> simp [hx]

/-- Replacing task `t` by one within budget, while logging the requests it added
    and none of another task's, keeps the invariant. -/
theorem BudgetInv.of_set (hb : BudgetInv s) {t : Nat} {task task' : Task}
    (ht : s.tasks[t]? = some task) {new : List Event} (hlog : s'.log = s.log ++ new)
    (htasks : s'.tasks = s.tasks.set t task') (hw : task'.WithinBudget)
    (hsent : task'.sent = task.sent + new.countP (Event.sentBy t))
    (hother : ∀ u, u ≠ t → new.countP (Event.sentBy u) = 0) : BudgetInv s' := by
  constructor
  · intro u
    rw [hlog, htasks, List.countP_append, hb.sent u]
    by_cases hu : u = t
    · subst hu
      rw [List.getElem?_set_self (List.getElem?_eq_some_iff.mp ht).1, ht]
      simp [hsent]
    · rw [List.getElem?_set_ne (Ne.symm hu), hother u hu, Nat.add_zero]
  · intro x hx
    rw [htasks] at hx
    rcases List.mem_or_eq_of_mem_set hx with hx | rfl
    · exact hb.within x hx
    · exact hw

theorem BudgetInv.mainMove (hb : BudgetInv s) (h : MainMove env s s') : BudgetInv s' := by
  have hlog : ∀ u, s'.log.countP (Event.sentBy u) = s.log.countP (Event.sentBy u) := fun u => by
    rcases h.log_eq with hlog | ⟨_, _, -, hlog⟩ <;> simp [hlog, Event.sentBy]
  rcases h.tasks_eq with htasks | ⟨sp, htasks⟩
  · exact ⟨fun u => by rw [hlog, htasks, hb.sent], htasks ▸ hb.within⟩
  · refine ⟨fun u => by rw [hlog, htasks, sent_getD_concat (x := ⟨sp, 0, .running⟩) rfl, hb.sent],
      fun x hx => ?_⟩
    rw [htasks, List.mem_append, List.mem_singleton] at hx
    rcases hx with hx | rfl
    · exact hb.within x hx
    · simp [Task.WithinBudget, Task.sent]

/-- Every step keeps the request count of every task. -/
theorem BudgetInv.step (hb : BudgetInv s) {c : Choice} (h : step env s c = some s') : BudgetInv s' := by
  cases c with
  | main => exact hb.mainMove (mainStep_move h)
  | probe =>
    obtain ⟨_, _, _, _, _, _, _, _, -, -, rfl⟩ := probeStep_eq_some h
    exact ⟨fun u => by simp [hb.sent u, Event.sentBy], hb.within⟩
  | task t reply io =>
    obtain ⟨task, ht, hrun, hcases⟩ := taskStep_eq_some h
    have hw := hb.within task (List.getElem?_mem ht)
    rcases hcases with ⟨-, rfl⟩ | ⟨-, -, -, -, -, htasks, hlog, -⟩
    · -- the task panics before sending anything
      have hlt := hw.2 hrun
      refine hb.of_set ht (List.append_nil _).symm rfl ⟨?_, by simp⟩ (by simp [Task.sent, hrun])
        fun _ _ => rfl
      simp only [Task.sent]
      omega
    · obtain ⟨hw', hsent⟩ := hw.pass hrun attempt_retry
      refine hb.of_set ht hlog htasks hw' ?_ fun u hu => ?_
      · rw [hsent]
        split_ifs <;> simp [Event.sentBy]
      · split_ifs <;> simp [Event.sentBy, Ne.symm hu]
  | complete t =>
    obtain ⟨task, ht, hcases⟩ := completeStep_eq_some h
    have hw := (hb.within task (List.getElem?_mem ht)).1
    rcases hcases with ⟨hph, rfl⟩ | ⟨hph, rfl⟩ <;>
      exact hb.of_set ht (List.append_nil _).symm rfl ⟨by simpa [Task.sent, hph] using hw, by simp⟩
        (by simp [Task.sent, hph]) fun _ _ => rfl

theorem Reachable.budgetInv (hs : Reachable env s) : BudgetInv s := by
  induction hs with
  | initial => exact ⟨fun _ => rfl, fun _ h => by simp [State.initial] at h⟩
  | step _ hs ih => exact ih.step hs

end

/-! ## Requests per chunk -/

/-- Whether an event is a range request of the task spawned for index `i` of
    entry `k`. -/
def Event.requestFor (tasks : List Task) (k i : Nat) : Event → Bool
  | .sent t _ _ => tasks[t]?.any fun task => task.spec.file == k && task.spec.index == i
  | _ => false

theorem Event.requestFor_sent {tasks : List Task} {k i t : Nat} {target : String}
    {reply : RangeReply} : Event.requestFor tasks k i (.sent t target reply) = true ↔
      ∃ task, tasks[t]? = some task ∧ task.spec.file = k ∧ task.spec.index = i := by
  cases h : tasks[t]? <;> simp [Event.requestFor, h]

section
variable {env : DownloaderEnv} {s : State}

/-- Whatever the order in which the main task, the probes and the chunk tasks
    move, index `i` of entry `k` is requested at most `max(chunk_max_retry, 1)`
    times: one task is spawned for it, and that task sends one request per pass. -/
theorem reachable_requests_per_chunk (hs : Reachable env s) (k i : Nat) :
    s.log.countP (Event.requestFor s.tasks k i) ≤ max env.chunkMaxRetry 1 := by
  by_cases hex : ∃ (t : Nat) (task : Task), s.tasks[t]? = some task ∧ task.spec.file = k ∧ task.spec.index = i
  · obtain ⟨t, task, ht, rfl, rfl⟩ := hex
    have hmem := List.getElem?_mem ht
    -- the requests for the slot are the requests of the one task holding it
    have hcount : s.log.countP (Event.requestFor s.tasks task.spec.file task.spec.index) =
        s.log.countP (Event.sentBy t) := List.countP_congr fun e _ => by
      cases e with
      | sent t' _ _ =>
        simp only [Event.requestFor_sent, Event.sentBy, beq_iff_eq]
        exact ⟨fun ⟨_, ht', hf, hi⟩ => hs.loopInv.eq_of_slot ht' ht hf hi,
          fun h => ⟨task, h ▸ ht, rfl, rfl⟩⟩
      | _ => simp [Event.requestFor, Event.sentBy]
    rw [hcount, hs.budgetInv.sent, ht, Option.map_some', Option.getD_some,
      ← (hs.inv.specs _ (List.mem_map_of_mem _ hmem)).maxRetry]
    exact (hs.budgetInv.within task hmem).1
  · -- no task holds the slot, so nothing was requested for it
    rw [List.countP_eq_zero.mpr fun e _ he => ?_]
    · exact Nat.zero_le _
    · cases e with
      | sent t => exact hex ⟨t, Event.requestFor_sent.mp he⟩
      | _ => simp [Event.requestFor] at he

/-- With two passes allowed, chunk 0 of `a.bin` is requested twice: once with
    no answer, once served. -/
theorem reachable_requests_per_chunk_example :
    ∃ s, Reachable { exampleEnv ["http://a"] with chunkMaxRetry := 2 } s ∧
      s.log.countP (Event.requestFor s.tasks 0 0) = 2 ∧
      s.log.countP (Event.requestFor s.tasks 0 0) ≤ max 2 1 := by
  obtain ⟨s, hs, h2⟩ := (exampleStart_reachable { exampleEnv ["http://a"] with chunkMaxRetry := 2 }).exists_of_run
    (exampleSpawn 1 (fun _ => 0) ++ [.task 0 .transportError .ok, .task 0 (chunkReply 0) .ok])
    (fun s => decide (s.log.countP (Event.requestFor s.tasks 0 0) = 2)) (by decide)
  exact ⟨s, hs, of_decide_eq_true h2, reachable_requests_per_chunk hs 0 0⟩

end

/-! ## The blocklist -/

/-- A chunk task whose `query_endpoint` is `url` finished with `Err`. -/
def TaskBlocked (s : State) (url : String) : Prop :=
  ∃ (t : Nat) (task : Task), s.tasks[t]? = some task ∧ task.phase = .finished false ∧
    task.spec.request.queryEndpoint = url

/-- Why a url is blocklisted: a probe of it failed, or a chunk task whose
    `query_endpoint` it is finished with `Err`. -/
def BlockReason (s : State) (url : String) : Prop :=
  (∃ k sr opr res, Event.probed k url sr opr res ∈ s.log ∧ res.toOption = none) ∨
    TaskBlocked s url

/-- The blocklist of a run from `blocklist` keeps the start's entries, every
    other entry has its reason, and a task that finished with `Err` has its
    `query_endpoint` there. The copy entry `k`'s check took is what the
    blocklist was then: the start's entries, urls whose probe failed for an
    earlier entry, and failed tasks' `query_endpoint`s. -/
structure BlocklistInv (blocklist : List String) (s : State) : Prop where
  initial : blocklist ⊆ s.blocklist
  sound : ∀ url ∈ s.blocklist, url ∈ blocklist ∨ BlockReason s url
  failed : ∀ (t : Nat) (task : Task), s.tasks[t]? = some task → task.phase = .finished false →
    task.spec.request.queryEndpoint ∈ s.blocklist
  checked : ∀ k b, Event.checked k b ∈ s.log → blocklist ⊆ b ∧ ∀ url ∈ b, url ∈ blocklist ∨
    (∃ k' sr opr res, Event.probed k' url sr opr res ∈ s.log ∧ k' < k ∧ res.toOption = none) ∨
    TaskBlocked s url

section
variable {env : DownloaderEnv} {s s' : State} {c : Choice} {blocklist : List String}

theorem TaskBlocked.step (h : step env s c = some s') {url : String} (hr : TaskBlocked s url) :
    TaskBlocked s' url :=
  let ⟨t, task, ht, hph, hq⟩ := hr
  ⟨t, task, step_getElem?_finished h ht hph, hph, hq⟩

theorem BlockReason.step (h : step env s c = some s') {url : String} (hr : BlockReason s url) :
    BlockReason s' url :=
  hr.imp (fun ⟨k, sr, opr, res, hp, hres⟩ => ⟨k, sr, opr, res, (step_log_grows h).subset hp, hres⟩)
    (TaskBlocked.step h)

/-- A url a step blocklists has its reason after the step. -/
theorem step_blocklist_mem (h : step env s c = some s') {url : String} (hu : url ∈ s'.blocklist) :
    url ∈ s.blocklist ∨ BlockReason s' url := by
  cases c with
  | main => exact .inl ((mainStep_move h).blocklist_eq ▸ hu)
  | probe =>
    obtain ⟨m, k, f, c, b, pending, results, url', -, -, rfl⟩ := probeStep_eq_some h
    split at hu
    · exact .inl hu
    · rename_i e he
      rcases List.mem_insert_iff.mp hu with rfl | hu
      · exact .inr (.inl ⟨k, _, _, _, List.mem_append_right _ (List.mem_singleton_self _),
          by rw [he]; rfl⟩)
      · exact .inl hu
  | task =>
    obtain ⟨_, -, -, ⟨-, rfl⟩ | ⟨-, -, -, hbl, -⟩⟩ := taskStep_eq_some h
    · exact .inl hu
    · exact .inl (hbl ▸ hu)
  | complete t =>
    obtain ⟨task, ht, ⟨-, rfl⟩ | ⟨-, rfl⟩⟩ := completeStep_eq_some h
    · exact .inl hu
    · rcases List.mem_insert_iff.mp hu with rfl | hu
      · exact .inr (.inr ⟨t, _, List.getElem?_set_self (List.getElem?_eq_some_iff.mp ht).1, rfl, rfl⟩)
      · exact .inl hu

/-- A task that has finished with `Err` after a step had done so before it, or
    the step blocklisted its `query_endpoint`. -/
theorem step_finished_false (h : step env s c = some s') {t : Nat} {task : Task}
    (ht : s'.tasks[t]? = some task) (hph : task.phase = .finished false) :
    s.tasks[t]? = some task ∨ task.spec.request.queryEndpoint ∈ s'.blocklist := by
  cases c with
  | main =>
    refine ((mainStep_move h).getElem?_tasks ht).imp_right fun hrun => ?_
    rw [hph] at hrun
    cases hrun
  | probe =>
    obtain ⟨_, _, _, _, _, _, _, _, -, -, rfl⟩ := probeStep_eq_some h
    exact .inl ht
  | task =>
    obtain ⟨_, -, -, ⟨-, rfl⟩ | ⟨-, -, -, -, -, htasks, -⟩⟩ := taskStep_eq_some h
    · rcases getElem?_set_eq_some ht with ⟨-, rfl⟩ | ⟨-, ht⟩
      · cases hph
      · exact .inl ht
    · rw [htasks] at ht
      rcases getElem?_set_eq_some ht with ⟨-, rfl⟩ | ⟨-, ht⟩
      · exact absurd hph (Attempt.phase_ne_finished _ _)
      · exact .inl ht
  | complete =>
    obtain ⟨_, -, ⟨-, rfl⟩ | ⟨-, rfl⟩⟩ := completeStep_eq_some h <;>
      rcases getElem?_set_eq_some ht with ⟨-, rfl⟩ | ⟨-, ht⟩
    · cases hph
    · exact .inl ht
    · exact .inr (List.mem_insert_self _ _)
    · exact .inl ht

/-- Only the main task logs a check, when it starts an entry's download, with
    the blocklist as it is. -/
theorem step_checked_mem (h : step env s c = some s') {k : Nat} {b : List String}
    (hk : Event.checked k b ∈ s'.log) :
    Event.checked k b ∈ s.log ∨ (∃ m, s.main = .file m k .fetch) ∧ b = s.blocklist := by
  cases c with
  | main =>
    rcases (mainStep_move h).log_eq with hlog | ⟨m, k', hm, hlog⟩ <;> rw [hlog] at hk
    · exact .inl hk
    · rcases List.mem_append.mp hk with hk | hk
      · exact .inl hk
      · obtain ⟨rfl, rfl⟩ : k = k' ∧ b = s.blocklist := by simpa using hk
        exact .inr ⟨⟨m, hm⟩, rfl⟩
  | probe =>
    obtain ⟨_, _, _, _, _, _, _, _, -, -, rfl⟩ := probeStep_eq_some h
    exact .inl (by simpa using hk)
  | task =>
    obtain ⟨_, -, -, ⟨-, rfl⟩ | ⟨-, -, -, -, -, -, hlog, -⟩⟩ := taskStep_eq_some h
    · exact .inl hk
    · rw [hlog] at hk
      exact .inl (by split_ifs at hk <;> simpa using hk)
  | complete =>
    obtain ⟨_, -, ⟨-, rfl⟩ | ⟨-, rfl⟩⟩ := completeStep_eq_some h <;> exact .inl hk

theorem BlocklistInv.start (pending : String → List Nat) (files : List String → Option Bytes) :
    BlocklistInv blocklist (.initial blocklist pending files) :=
  ⟨List.Subset.refl _, fun _ hu => .inl hu, fun _ _ ht => by simp [State.initial] at ht,
    fun _ _ hk => by simp [State.initial] at hk⟩

theorem BlocklistInv.step (hb : BlocklistInv blocklist s) (hinv : Inv env s) (h : step env s c = some s') :
    BlocklistInv blocklist s' where
  initial := hb.initial.trans (step_blocklist_subset h)
  sound url hu := (step_blocklist_mem h hu).elim
    (fun hu => (hb.sound url hu).imp_right (BlockReason.step h)) Or.inr
  failed t task ht hph := (step_finished_false h ht hph).elim
    (fun ht => step_blocklist_subset h (hb.failed t task ht hph)) id
  checked k b hk := by
    have hgrow := (step_log_grows h).subset
    rcases step_checked_mem h hk with hk | ⟨⟨m, hm⟩, rfl⟩
    · obtain ⟨hsub, hmem⟩ := hb.checked k b hk
      exact ⟨hsub, fun url hu => (hmem url hu).imp_right <| Or.imp
        (fun ⟨k', sr, opr, res, hp, hlt, hres⟩ => ⟨k', sr, opr, res, hgrow hp, hlt, hres⟩)
        (TaskBlocked.step h)⟩
    · -- the check copies the blocklist while no probe of entry `k` has run
      have hmain := hinv.main
      rw [hm] at hmain
      obtain ⟨-, ⟨hord, -⟩, -⟩ := hmain
      refine ⟨hb.initial, fun url hu => ?_⟩
      rcases hb.sound url hu with h0 | ⟨k', sr, opr, res, hp, hres⟩ | ht
      · exact .inl h0
      · have hlt : k' < k := by
          rcases hord _ hp k' rfl with hlt | ⟨-, hne⟩
          · exact hlt
          · exact absurd rfl hne
        exact .inr (.inl ⟨k', sr, opr, res, hgrow hp, hlt, hres⟩)
      · exact .inr (.inr (TaskBlocked.step h ht))

theorem BlocklistInv.run : ∀ {cs : List Choice} {s s' : State}, Reachable env s →
    BlocklistInv blocklist s → SubfileExchange.run env s cs = some s' → BlocklistInv blocklist s'
  | [], _, _, _, hb, h => by cases h; exact hb
  | _ :: _, _, _, hs, hb, h => by
    obtain ⟨s₁, h₁, h⟩ := Option.bind_eq_some.mp h
    exact BlocklistInv.run (hs.step h₁) (hb.step hs.inv h₁) h

/-- Over every run of `download_subfile`, a url is in the blocklist exactly when
    the caller's blocklist held it, a probe of it failed, or a chunk task whose
    `query_endpoint` it is finished with `Err`. -/
theorem run_blocklist_iff {pending : String → List Nat} {files : List String → Option Bytes}
    {cs : List Choice} (h : run env (.initial blocklist pending files) cs = some s) (url : String) :
    url ∈ s.blocklist ↔ url ∈ blocklist ∨ BlockReason s url := by
  have hs := (Reachable.initial blocklist pending files).run h
  have hb := BlocklistInv.run (.initial _ _ _) (.start pending files) h
  refine ⟨hb.sound url, ?_⟩
  rintro (hu | ⟨k, sr, opr, res, hp, hres⟩ | ⟨t, task, ht, hph, rfl⟩)
  · exact hb.initial hu
  · obtain ⟨-, -, hbl⟩ := hs.inv.events _ hp
    exact hbl hres
  · exact hb.failed t task ht hph

/-- With one endpoint and one pass per chunk, chunk 0's request gets no answer
    and its task blocklists `http://a/subfiles/id/m`, which no probe ran on. -/
theorem run_blocklist_iff_example :
    ∃ s, run (exampleEnv ["http://a"]) exampleStart
        (exampleSpawn 1 (fun _ => 0) ++ [.task 0 .transportError .ok, .complete 0]) = some s ∧
      "http://a/subfiles/id/m" ∈ s.blocklist ∧
      ("http://a/subfiles/id/m" ∈ s.blocklist ↔
        "http://a/subfiles/id/m" ∈ ([] : List String) ∨ BlockReason s "http://a/subfiles/id/m") := by
  obtain ⟨s, hs, hu⟩ := Option.map_eq_some'.mp (by decide :
    (run (exampleEnv ["http://a"]) exampleStart
      (exampleSpawn 1 (fun _ => 0) ++ [.task 0 .transportError .ok, .complete 0])).map
      (fun s => decide ("http://a/subfiles/id/m" ∈ s.blocklist)) = some true)
  exact ⟨s, hs, of_decide_eq_true hu, run_blocklist_iff hs _⟩

/-- Which endpoints an entry's `check_availability` skips does not depend on any
    chunk download. A failed chunk task blocklists `u/subfiles/id/<hash>`, never
    the endpoint `u` itself, so among the urls not of that form the copy entry
    `k`'s check takes holds exactly the caller's and those whose probe failed
    for an earlier entry. -/
theorem run_checked_blocklist {pending : String → List Nat} {files : List String → Option Bytes}
    {cs : List Choice} (h : run env (.initial blocklist pending files) cs = some s) {k : Nat}
    {b : List String} (hk : Event.checked k b ∈ s.log) {url : String}
    (hform : ∀ u, url ≠ u ++ "/subfiles/id/" ++ env.ipfsHash) :
    url ∈ b ↔ url ∈ blocklist ∨
      ∃ k' sr opr res, Event.probed k' url sr opr res ∈ s.log ∧ k' < k ∧ res.toOption = none := by
  have hinv := ((Reachable.initial blocklist pending files).run h).inv
  obtain ⟨hsub, hmem⟩ := (BlocklistInv.run (.initial _ _ _) (.start pending files) h).checked k b hk
  refine ⟨fun hu => ?_, ?_⟩
  · rcases hmem url hu with h0 | hp | ⟨t, task, ht, -, rfl⟩
    · exact .inl h0
    · exact .inr hp
    · obtain ⟨_, u, -, -, -, hq⟩ :=
        (hinv.specs _ (List.mem_map_of_mem _ (List.getElem?_mem ht))).endpoint
      exact absurd hq (hform u)
  · rintro (h0 | ⟨k', sr, opr, res, hp, hlt, hres⟩)
    · exact hsub h0
    · exact hinv.blocked k b k' url sr opr res hk hp hlt hres

/-- The downloader of the two entries of `duplicateStore` from `http://a`. -/
def duplicateEnv : DownloaderEnv :=
  ⟨exampleDigest, duplicateStore, "m", ["http://a"], "out", some "Bearer t", 1, ["home"]⟩

/-- Entry 0's chunk 0 gets no answer and its task fails; entry 1's check still
    probes `http://a`. -/
theorem run_checked_blocklist_example :
    ∃ s, run duplicateEnv exampleStart
        (exampleSpawn 1 (fun _ => 0) ++ [.task 0 .transportError .ok, .task 1 (chunkReply 1) .ok,
          .complete 0, .complete 1, .main true 0, .main true 0, .main true 0, .main true 0]) = some s ∧
      Event.checked 1 ["http://a/subfiles/id/m"] ∈ s.log ∧
      (∀ u, "http://a" ≠ u ++ "/subfiles/id/" ++ "m") ∧
      ("http://a" ∈ ["http://a/subfiles/id/m"] ↔ "http://a" ∈ ([] : List String) ∨
        ∃ k' sr opr res, Event.probed k' "http://a" sr opr res ∈ s.log ∧ k' < 1 ∧
          res.toOption = none) := by
  obtain ⟨s, hs, hk⟩ := Option.map_eq_some'.mp (by decide :
    (run duplicateEnv exampleStart
      (exampleSpawn 1 (fun _ => 0) ++ [.task 0 .transportError .ok, .task 1 (chunkReply 1) .ok,
        .complete 0, .complete 1, .main true 0, .main true 0, .main true 0, .main true 0])).map
      (fun s => decide (Event.checked 1 ["http://a/subfiles/id/m"] ∈ s.log)) = some true)
  have hform : ∀ u, "http://a" ≠ u ++ "/subfiles/id/" ++ "m" := fun u hu => by
    have := congrArg String.length hu
    simp only [String.length_append] at this
    have h8 : "http://a".length = 8 := rfl
    have h14 : "/subfiles/id/".length = 13 := rfl
    omega
  exact ⟨s, hs, of_decide_eq_true hk, hform,
    run_checked_blocklist hs (of_decide_eq_true hk) hform⟩

end

end SubfileExchange
