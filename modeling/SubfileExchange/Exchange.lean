/-
  SubfileExchange.Exchange

  The downloader against the servers it reaches. A server answers at its base
  url (`Server`); a `GET` of a target reaches the first server whose base url
  the target extends (`route`), and what that server's `handle_request`
  returns comes back, a failed handler as a transport error (`Wire`). A run of
  `download_subfile` is served by `net` when the reply to each range request is
  the one `net` serves, or a transport error (`ServedBy`); the probes and the
  file system calls go as they may.

  `request_chunk` names the file in a header `file_hash`, and `file_service`
  reads `file_name`. A request without `file_name` gets no bytes from any route
  of `handle_request` (`rangeReplyResult_without_fileName`), so no range
  request of the downloader is answered with a chunk, whatever the servers
  host. In a served run no pass verifies (`ServedInv`): no task writes a byte
  or returns `Ok`, every output file is as it was or empty, every entry the
  main task has passed failed, and `download_subfile` returns `Ok` only for a
  manifest with no entries (`servedReachable_ok_only_empty`).

  The older server of `subfile-cli` (`Server.Cli`) is never used at all. Its
  `/operator` answers a text, which does not parse as an `Operator`, so every
  probe of a url running it fails and blocklists the url, and no range request
  goes there (`cliReachable_never_used`).
-/
import SubfileExchange.Wire
import SubfileExchange.Client.Safety
import SubfileExchange.Server.Cli

namespace SubfileExchange

/-! ## Servers -/

/-- A server at its base url, with the files it reads. -/
structure Server where
  base : String
  state : ServerState
  fs : LocalFs

/-- The server a `GET` of `target` reaches and the request it receives there:
    the first server of `net` whose base url `target` extends. -/
def route (net : List Server) (target : String) (headers : Headers) : Option (Server × Request) :=
  net.findSome? fun sv => (requestTo sv.base target headers).map (sv, ·)

/-- What a range request of `target` receives from `net`: the response of the
    server it reaches, or a transport error when it reaches none. -/
def rangeReplyFrom (net : List Server) (target : String) (headers : Headers) : RangeReply :=
  match route net target headers with
  | some (sv, req) => .ofResult (handleRequest sv.state sv.fs req)
  | none => .transportError

theorem requestTo_headers {base target : String} {headers : Headers} {req : Request}
    (h : requestTo base target headers = some req) : req.headers = headers := by
  unfold requestTo at h
  split_ifs at h
  cases h
  rfl

/-- A request carries to the server the headers it was sent with. -/
theorem route_headers {net : List Server} {target : String} {headers : Headers} {sv : Server}
    {req : Request} (h : route net target headers = some (sv, req)) : req.headers = headers := by
  obtain ⟨sv', -, hsv⟩ := List.exists_of_findSome?_eq_some h
  obtain ⟨req', hreq, heq⟩ := Option.map_eq_some'.mp hsv
  cases heq
  exact requestTo_headers hreq

/-! ## A request that names no file -/

/-- `file_service` answers a request without a `file_name` header itself, with
    an error status and no header. -/
theorem fileService_without_fileName (fs : LocalFs) (path : String) (st : ServerState)
    {req : Request} (h : req.headers.get fileNameHeader = none) :
    ∃ r, fileService fs path req st = .ok r ∧ isSuccess r.status = false ∧ r.headers = [] := by
  simp only [fileService, fileServiceTarget, h, Option.none_bind]
  split_ifs
  · exact ⟨_, rfl, rfl, rfl⟩
  · split <;> exact ⟨_, rfl, rfl, rfl⟩

/-- No route of `handle_request` answers a request without a `file_name`
    header with bytes the downloader reads: every answer has an error status
    or no `Content-Range` header. -/
theorem rangeReplyResult_without_fileName (st : ServerState) (fs : LocalFs) {req : Request}
    (h : req.headers.get fileNameHeader = none) (b : Bytes) :
    rangeReplyResult (.ofResult (handleRequest st fs req)) ≠ .ok b := by
  obtain ⟨r, hr, hs, hh⟩ := fileService_without_fileName fs req.path st h
  unfold handleRequest
  split_ifs <;> simp [hr, hs, hh, RangeReply.ofResult, Response.toRangeReply, Headers.get, operatorInfo,
    status, health, version]

/-- No server answers a range request of the downloader with a chunk. -/
theorem rangeReplyFrom_chunkHeaders (net : List Server) (target : String) (r : DownloadRangeRequest)
    (t : String) (b : Bytes) : rangeReplyResult (rangeReplyFrom net target (chunkHeaders r t)) ≠ .ok b := by
  unfold rangeReplyFrom
  split
  · rename_i sv req hroute
    exact rangeReplyResult_without_fileName _ _ (by rw [route_headers hroute]; rfl) b
  · simp

/-- The example server answers the downloader's first range request 406. -/
example : rangeReplyFrom [⟨"http://a", exampleServer, exampleFs [0, 1, 2, 3, 4]⟩]
    "http://a/subfiles/id/m"
    (chunkHeaders ⟨"http://a/subfiles/id/m", some "Bearer t", "c", 0, 3, "abcd", 1⟩ "Bearer t") =
      .response 406 false [] := by
  decide

/-! ## Served runs -/

/-- A step whose range request, if it makes one, gets the reply `net` serves
    or a transport error. -/
def ServedBy (net : List Server) (s : State) : Choice → Prop
  | .task t reply _ => ∀ task ∈ s.tasks[t]?, ∀ x ∈ (chunkRequest task.spec.request).toOption,
      reply = rangeReplyFrom net x.1 x.2 ∨ reply = .transportError
  | _ => True

/-- The states a call of `download_subfile` reaches against `net`, from the
    output files `files₀`. -/
inductive ServedReachable (env : DownloaderEnv) (net : List Server)
    (files₀ : List String → Option Bytes) : State → Prop where
  | initial (blocklist : List String) (pending : String → List Nat) :
      ServedReachable env net files₀ (.initial blocklist pending files₀)
  | step {s s' : State} {c : Choice} : ServedReachable env net files₀ s → ServedBy net s c →
      step env s c = some s' → ServedReachable env net files₀ s'

/-- A served pass reads no chunk. -/
theorem ServedBy.rangeReplyResult_ne {net : List Server} {s : State} {t : Nat} {reply : RangeReply}
    {io : WriteIo} (h : ServedBy net s (.task t reply io)) {task : Task} (ht : s.tasks[t]? = some task)
    {tok : String} (htok : task.spec.request.authToken = some tok) (b : Bytes) :
    rangeReplyResult reply ≠ .ok b := by
  have hx : (task.spec.request.queryEndpoint, chunkHeaders task.spec.request tok) ∈
      (chunkRequest task.spec.request).toOption := by
    simp [chunkRequest, htok, Except.toOption]
  rcases h task ht _ hx with rfl | rfl
  · exact rangeReplyFrom_chunkHeaders net _ _ tok b
  · simp

/-- A pass that reads no chunk writes nothing and does not return `Ok`. -/
theorem attempt_of_no_chunk (digest : Bytes → String) (r : DownloadRangeRequest) (attempts : Nat)
    (io : WriteIo) {outcome : Except String Bytes} (h : ∀ b, outcome ≠ .ok b) :
    (attempt digest r attempts outcome io).written = [] ∧
      (attempt digest r attempts outcome io).phase ≠ .returned true ∧
      (attempt digest r attempts outcome io).phase ≠ .finished true := by
  have hv : isVerified digest r.chunkHash outcome = false :=
    Bool.eq_false_iff.mpr fun hv => let ⟨b, hb, _⟩ := isVerified_eq_true.mp hv; h b hb
  rw [attempt_of_unverified hv]
  split_ifs <;> simp [Attempt.written, Attempt.phase]

/-! ## What a served run keeps -/

/-- An entry's loop and joins in a served run: a task spawned per index of a
    loop that runs at least once, and among the joins a task still to join or
    one that failed. -/
def PhaseFailing : FilePhase → Prop
  | .spawning _ _ _ _ i n handles => handles.length = i ∧ 0 < n
  | .joining handles failed => handles ≠ [] ∨ 0 < failed
  | _ => True

/-- The main task in a served run: on entry `k` of the manifest it fetched with
    `k` failures collected, and returned `Ok` only on a manifest with no entries. -/
def MainFailing (env : DownloaderEnv) : Main → List String → Prop
  | .start, incomplete => incomplete = []
  | .file m k ph, incomplete =>
    fetchSubfileFromIpfs env.store env.ipfsHash = .ok m ∧ incomplete.length = k ∧ PhaseFailing ph
  | .done (.ok _), _ => ∃ m, fetchSubfileFromIpfs env.store env.ipfsHash = .ok m ∧ m.files = []
  | .done (.error _), _ => True

/-- What a served run keeps: no task has returned `Ok`, no byte was written,
    and every entry the main task passed failed. -/
structure ServedInv (env : DownloaderEnv) (files₀ : List String → Option Bytes) (s : State) :
    Prop where
  tasks : ∀ task ∈ s.tasks, task.phase ≠ .returned true ∧ task.phase ≠ .finished true
  files : ∀ p, s.files p = files₀ p ∨ s.files p = some []
  log : ∀ t p o d, Event.wrote t p o d ∉ s.log
  main : MainFailing env s.main s.incomplete

section
variable {env : DownloaderEnv} {files₀ : List String → Option Bytes} {s s' : State}

theorem mainFailing_fileFailed {m : SubfileManifest} {k : Nat} {msg : String}
    (hman : fetchSubfileFromIpfs env.store env.ipfsHash = .ok m) (hlen : s.incomplete.length = k) :
    MainFailing env (s.fileFailed m k msg).main (s.fileFailed m k msg).incomplete :=
  ⟨hman, by simp [State.fileFailed, hlen], trivial⟩

theorem ServedInv.of_setTask (hinv : ServedInv env files₀ s) {t : Nat} {task : Task}
    (hph : task.phase ≠ .returned true ∧ task.phase ≠ .finished true) :
    ∀ task' ∈ s.tasks.set t task, task'.phase ≠ .returned true ∧ task'.phase ≠ .finished true :=
  fun _ h => (List.mem_or_eq_of_mem_set h).elim (hinv.tasks _) fun h => h ▸ hph

theorem ServedInv.log_append (hinv : ServedInv env files₀ s) {new : List Event}
    (hnew : ∀ t p o d, Event.wrote t p o d ∉ new) : ∀ t p o d, Event.wrote t p o d ∉ s.log ++ new :=
  fun t p o d h => (List.mem_append.mp h).elim (hinv.log t p o d) (hnew t p o d)

/-- The main task in a served run: no join finds a task that returned `Ok`, so
    every entry ends in `fileFailed`, and the loop spawns before it joins. -/
theorem MainMove.mainFailing (hinv : ServedInv env files₀ s) (hmove : MainMove env s s') :
    MainFailing env s'.main s'.incomplete := by
  have hmain := hinv.main
  cases hmove with
  | fetchManifest hm hf =>
    rw [hm] at hmain
    exact ⟨hf, by rw [hmain]; rfl, trivial⟩
  | @finish m k hm hnone =>
    rw [hm] at hmain
    obtain ⟨hman, hlen, -⟩ := hmain
    split_ifs with hinc
    · rw [hinc, List.length_nil] at hlen
      subst hlen
      exact ⟨m, hman, List.length_eq_zero.mp (by have := List.getElem?_eq_none_iff.mp hnone; omega)⟩
    · trivial
  | fetchChunkFile hm | probesDone hm =>
    rw [hm] at hmain
    exact ⟨hmain.1, hmain.2.1, trivial⟩
  | fetchChunkFileFailed hm | spawnFailed hm | joinPanicked hm =>
    rw [hm] at hmain
    exact mainFailing_fileFailed hmain.1 hmain.2.1
  | create hm hn =>
    rw [hm] at hmain
    exact ⟨hmain.1, hmain.2.1, rfl, by rw [(loopBound_eq_ok.mp hn).2.2]; exact Nat.succ_pos _⟩
  | spawn hm =>
    rw [hm] at hmain
    obtain ⟨hman, hlen, hh, hn⟩ := hmain
    exact ⟨hman, hlen, by simp [hh], hn⟩
  | loopDone hm hi =>
    rw [hm] at hmain
    obtain ⟨hman, hlen, hh, hn⟩ := hmain
    exact ⟨hman, hlen, .inl (List.ne_nil_of_length_pos (by omega))⟩
  | @joinedAll m k failed hm =>
    rw [hm] at hmain
    obtain ⟨hman, hlen, hph⟩ := hmain
    have hfailed : failed ≠ 0 := by
      rcases hph with h | h
      · exact absurd rfl h
      · omega
    rw [if_neg hfailed]
    exact mainFailing_fileFailed hman hlen
  | joinOk hm ht hph | joinMetadataFailed hm ht hph =>
    exact absurd hph (hinv.tasks _ (List.getElem?_mem ht)).2
  | joinErr hm =>
    rw [hm] at hmain
    exact ⟨hmain.1, hmain.2.1, .inr (Nat.succ_pos _)⟩
  | fetchManifestFailed | fetchChunkFilePanicked | createLoopPanicked | createFailed
  | spawnPanicked => trivial

theorem ServedInv.mainMove (hinv : ServedInv env files₀ s) (hmove : MainMove env s s') :
    ServedInv env files₀ s' := by
  refine ⟨?_, ?_, ?_, hmove.mainFailing hinv⟩
  · cases hmove with
    | spawn =>
      intro task h
      rcases List.mem_append.mp h with h | h
      · exact hinv.tasks task h
      · rw [List.mem_singleton.mp h]
        simp
    | joinedAll => split_ifs <;> exact hinv.tasks
    | _ => exact hinv.tasks
  · rcases hmove.files_eq with hf | ⟨_, _, f, _, _, _, hf⟩ <;> rw [hf]
    · exact hinv.files
    · intro p
      by_cases hp : p = outputLocation env f
      · subst hp
        exact .inr (Function.update_same _ _ _)
      · rw [Function.update_noteq hp]
        exact hinv.files p
  · rcases hmove.log_eq with hl | ⟨_, _, _, hl⟩ <;> rw [hl]
    · exact hinv.log
    · exact hinv.log_append (by simp)

theorem ServedInv.probeStep (hinv : ServedInv env files₀ s) {j : Nat} {sr opr : ProbeReply}
    (h : probeStep env s j sr opr = some s') : ServedInv env files₀ s' := by
  obtain ⟨m, k, f, c, b, pending, results, url, hm, -, rfl⟩ := probeStep_eq_some h
  have hmain := hinv.main
  rw [hm] at hmain
  exact ⟨hinv.tasks, hinv.files, hinv.log_append (by simp), hmain.1, hmain.2.1, trivial⟩

/-- A served pass reads no chunk, so it writes nothing and the task goes on or
    returns `Err`. -/
theorem ServedInv.taskStep {net : List Server} (hinv : ServedInv env files₀ s) {t : Nat}
    {reply : RangeReply} {io : WriteIo} (hserved : ServedBy net s (.task t reply io))
    (h : taskStep env s t reply io = some s') : ServedInv env files₀ s' := by
  obtain ⟨task, ht, -, ⟨-, rfl⟩ | ⟨htok, hmain, hinc, -, -, htasks, hlog, hfiles⟩⟩ :=
    taskStep_eq_some h
  · exact ⟨hinv.of_setTask (by simp), hinv.files, hinv.log, hinv.main⟩
  obtain ⟨tok, htok⟩ := Option.isSome_iff_exists.mp htok
  obtain ⟨hw, hret, hfin⟩ :=
    attempt_of_no_chunk env.digest _ task.attempts io (hserved.rangeReplyResult_ne ht htok)
  rw [if_pos hw] at hlog hfiles
  exact ⟨htasks ▸ hinv.of_setTask ⟨hret, hfin⟩, hfiles ▸ hinv.files,
    hlog ▸ hinv.log_append (by simp), by rw [hmain, hinc]; exact hinv.main⟩

theorem ServedInv.completeStep (hinv : ServedInv env files₀ s) {t : Nat}
    (h : completeStep s t = some s') : ServedInv env files₀ s' := by
  obtain ⟨task, ht, ⟨hph, -⟩ | ⟨-, rfl⟩⟩ := completeStep_eq_some h
  · exact absurd hph (hinv.tasks _ (List.getElem?_mem ht)).1
  · exact ⟨hinv.of_setTask (by simp), hinv.files, hinv.log, hinv.main⟩

theorem ServedInv.step {net : List Server} (hinv : ServedInv env files₀ s) {c : Choice}
    (hserved : ServedBy net s c) (h : SubfileExchange.step env s c = some s') :
    ServedInv env files₀ s' := by
  cases c with
  | main => exact hinv.mainMove (mainStep_move h)
  | probe => exact hinv.probeStep h
  | task => exact hinv.taskStep hserved h
  | complete => exact hinv.completeStep h

/-- Every state of a served run keeps `ServedInv`. -/
theorem ServedReachable.servedInv {net : List Server} (hs : ServedReachable env net files₀ s) :
    ServedInv env files₀ s := by
  induction hs with
  | initial => exact ⟨by simp [State.initial], fun _ => .inl rfl, by simp [State.initial], rfl⟩
  | step _ hserved hstep ih => exact ih.step hserved hstep

/-- Against any servers, in every state of a served run no task has written a
    byte and every output file is as it was or empty, and `download_subfile` has
    returned `Ok` only for a manifest with no entries. -/
theorem servedReachable_ok_only_empty {net : List Server} (hs : ServedReachable env net files₀ s) :
    (∀ t p o d, Event.wrote t p o d ∉ s.log) ∧ (∀ p, s.files p = files₀ p ∨ s.files p = some []) ∧
      (s.main = .done (.ok ()) →
        ∃ m, fetchSubfileFromIpfs env.store env.ipfsHash = .ok m ∧ m.files = []) := by
  have hinv := hs.servedInv
  exact ⟨hinv.log, hinv.files, fun hdone => by simpa only [hdone, MainFailing] using hinv.main⟩

/-- A store whose manifest `m` has no entries. -/
def emptyManifestStore : IpfsStore := ⟨fun _ => some ⟨[], "", "", "", "", ⟨0, none⟩⟩, fun _ => none⟩

/-- The downloader of manifest `m` of `emptyManifestStore`, with no endpoints. -/
def emptyEnv : DownloaderEnv := { exampleEnv [] with store := emptyManifestStore }

/-- With no entries to fetch the call returns `Ok` after two moves, whatever
    the servers. -/
theorem servedReachable_ok_only_empty_example :
    ∃ s, ServedReachable emptyEnv [] (fun _ => none) s ∧ s.main = .done (.ok ()) ∧
      (∀ t p o d, Event.wrote t p o d ∉ s.log) ∧ (∀ p, s.files p = none ∨ s.files p = some []) ∧
      (s.main = .done (.ok ()) → ∃ m, fetchSubfileFromIpfs emptyManifestStore "m" = .ok m ∧ m.files = []) := by
  have hs := @ServedReachable.step emptyEnv [] (fun _ => none) _ _ (.main true 0)
    (@ServedReachable.step emptyEnv [] (fun _ => none) _ _ (.main true 0) (.initial [] fun _ => [])
      trivial rfl) trivial rfl
  exact ⟨_, hs, rfl, servedReachable_ok_only_empty hs⟩

end

/-! ## A `subfile-cli` server -/

/-- The url probe `j` of the current `check_availability` runs on. -/
def State.probeUrl? (s : State) (j : Nat) : Option String :=
  match s.main with
  | .file _ _ (.probing _ _ _ pending _) => pending[j]?
  | _ => none

/-- What `<url>/operator` returns when `url` runs the `subfile-cli` server `st`
    reading `fs`: its response, or a transport error. -/
def CliOperatorReply (st : Cli.ServerState) (fs : LocalFs) (opr : ProbeReply) : Prop :=
  (∃ hs, opr = .ofResult (Cli.handleRequest st fs ⟨"/operator", hs⟩)) ∨ opr = .transportError

/-- A step whose probe, if it probes `url`, gets its `/operator` reply from the
    `subfile-cli` server there. -/
def OperatorByCli (url : String) (st : Cli.ServerState) (fs : LocalFs) (s : State) : Choice → Prop
  | .probe j _ opr => s.probeUrl? j = some url → CliOperatorReply st fs opr
  | _ => True

/-- The states a call of `download_subfile` reaches when `url` runs the
    `subfile-cli` server `st` reading `fs`. -/
inductive CliReachable (env : DownloaderEnv) (url : String) (st : Cli.ServerState) (fs : LocalFs) :
    State → Prop where
  | initial (blocklist : List String) (pending : String → List Nat) (files : List String → Option Bytes) :
      CliReachable env url st fs (.initial blocklist pending files)
  | step {s s' : State} {c : Choice} : CliReachable env url st fs s → OperatorByCli url st fs s c →
      step env s c = some s' → CliReachable env url st fs s'

section
variable {env : DownloaderEnv} {url : String} {st : Cli.ServerState} {fs : LocalFs} {s s' : State}

theorem CliReachable.reachable (hs : CliReachable env url st fs s) : Reachable env s := by
  induction hs with
  | initial => exact .initial _ _ _
  | step _ _ hstep ih => exact ih.step hstep

/-- A run whose probes all get the older server's `/operator` reply stays in
    `CliReachable`. -/
theorem CliReachable.run : ∀ {s s' : State} {cs : List Choice}, CliReachable env url st fs s →
    (∀ j sr opr, Choice.probe j sr opr ∈ cs → opr = .ofResult (Cli.handleRequest st fs ⟨"/operator", []⟩)) →
    run env s cs = some s' → CliReachable env url st fs s'
  | _, _, [], hs, _, h => by cases h; exact hs
  | s, _, c :: cs, hs, hcs, h => by
    obtain ⟨s₁, h₁, h⟩ := Option.bind_eq_some.mp h
    have hc : OperatorByCli url st fs s c := by
      cases c with
      | probe j sr opr => exact fun _ => .inl ⟨[], hcs j sr opr (List.mem_cons_self _ _)⟩
      | _ => trivial
    exact CliReachable.run (hs.step hc h₁) (fun j sr opr hm => hcs j sr opr (List.mem_cons_of_mem _ hm)) h

/-- The `/operator` reply of the older server is no `Operator`: a probe that gets
    it fails, whatever `/status` answered. -/
theorem checkEndpointAvailability_cli {opr : ProbeReply} (hopr : CliOperatorReply st fs opr)
    (h u : String) (sr : ProbeReply) : (checkEndpointAvailability h u sr opr).toOption = none := by
  cases hc : checkEndpointAvailability h u sr opr with
  | error => rfl
  | ok e =>
    obtain ⟨_, _, _, pk, -, -, -, ho, -⟩ := checkEndpointAvailability_eq_ok.mp hc
    rcases hopr with ⟨hs, hopr⟩ | hopr <;> rw [ho] at hopr <;>
      simp [Cli.handleRequest_operator_text, ProbeReply.ofResult, Response.toProbeReply] at hopr

/-- A step logs a probe only when it runs one, on its pending url, with the
    replies it got. -/
theorem step_probed_mem {c : Choice} (h : step env s c = some s') {k : Nat} {u : String}
    {sr opr : ProbeReply} {res : Except String IndexerEndpoint}
    (hp : Event.probed k u sr opr res ∈ s'.log) :
    Event.probed k u sr opr res ∈ s.log ∨ ∃ j, c = .probe j sr opr ∧ s.probeUrl? j = some u := by
  cases c with
  | main =>
    rcases (mainStep_move h).log_eq with hl | ⟨_, _, _, hl⟩ <;> rw [hl] at hp
    · exact .inl hp
    · simpa using hp
  | probe j sr opr =>
    obtain ⟨m, k', f, c, b, pending, results, u', hm, hj, rfl⟩ := probeStep_eq_some h
    simp only [List.mem_append, List.mem_singleton, Event.probed.injEq] at hp
    rcases hp with hp | ⟨rfl, rfl, rfl, rfl, -⟩
    · exact .inl hp
    · exact .inr ⟨j, rfl, by simp [State.probeUrl?, hm, hj]⟩
  | task =>
    obtain ⟨_, -, -, ⟨-, rfl⟩ | ⟨-, -, -, -, -, -, hlog, -⟩⟩ := taskStep_eq_some h
    · exact .inl hp
    · rw [hlog] at hp
      split_ifs at hp <;> simpa using hp
  | complete =>
    obtain ⟨_, -, ⟨-, rfl⟩ | ⟨-, rfl⟩⟩ := completeStep_eq_some h <;> exact .inl hp

/-- Every probe of `url` in such a run got the older server's `/operator` reply. -/
theorem CliReachable.probes_cli (hs : CliReachable env url st fs s) :
    ∀ k sr opr res, Event.probed k url sr opr res ∈ s.log → CliOperatorReply st fs opr := by
  induction hs with
  | initial => simp [State.initial]
  | step _ hc hstep ih =>
    intro k sr opr res hp
    rcases step_probed_mem hstep hp with hp | ⟨j, rfl, hj⟩
    · exact ih k sr opr res hp
    · exact hc hj

/-- So every probe of `url` in such a run failed. -/
theorem CliReachable.probes_fail (hs : CliReachable env url st fs s) {k : Nat} {sr opr : ProbeReply}
    {res : Except String IndexerEndpoint} (hp : Event.probed k url sr opr res ∈ s.log) :
    res.toOption = none := by
  obtain ⟨-, rfl, -⟩ := hs.reachable.inv.events _ hp
  exact checkEndpointAvailability_cli (hs.probes_cli k sr opr _ hp) _ _ _

/-- Against a `subfile-cli` server at `url`, every probe of `url` fails and
    leaves `url` in the blocklist, and no range request is sent to `url`. -/
theorem cliReachable_never_used (hs : CliReachable env url st fs s) :
    (∀ k sr opr res, Event.probed k url sr opr res ∈ s.log → res.toOption = none ∧ url ∈ s.blocklist) ∧
    ∀ t target reply, Event.sent t target reply ∈ s.log →
      target ≠ url ++ "/subfiles/id/" ++ env.ipfsHash := by
  have hinv := hs.reachable.inv
  refine ⟨fun k sr opr res hp => ⟨hs.probes_fail hp, (hinv.events _ hp).2.2 (hs.probes_fail hp)⟩,
    fun t target reply hsent htarget => ?_⟩
  obtain ⟨sp, hsp, rfl⟩ := hinv.events _ hsent
  obtain ⟨pk, u, sr, opr, hp, hq⟩ := (hinv.specs sp (mem_specs_of_spec? hsp)).endpoint
  have hu : u = url := by
    have hd := congrArg String.data (hq.symm.trans htarget)
    simp only [String.data_append, List.append_assoc, List.append_left_inj] at hd
    exact String.ext hd
  subst hu
  simpa [Except.toOption] using hs.probes_fail hp

/-- The older server hosting `m` from `srv`, without a token. -/
def exampleCliState : Cli.ServerState :=
  ⟨[("m", ⟨"m", "srv", exampleManifest "a.bin", [exampleChunkFile]⟩)], ⟨"0.1.0"⟩, none⟩

theorem cliReachable_never_used_example :
    ∃ s, CliReachable (exampleEnv ["http://a"]) "http://a" exampleCliState (exampleFs []) s ∧
      "http://a" ∈ s.blocklist ∧
      (∀ k sr opr res, Event.probed k "http://a" sr opr res ∈ s.log →
        res.toOption = none ∧ "http://a" ∈ s.blocklist) ∧
      ∀ t target reply, Event.sent t target reply ∈ s.log →
        target ≠ "http://a" ++ "/subfiles/id/" ++ (exampleEnv ["http://a"]).ipfsHash := by
  have hrun : (run (exampleEnv ["http://a"]) exampleStart
      [.main true 0, .main true 0, .probe 0 (.ofResult (Cli.handleRequest exampleCliState (exampleFs [])
        ⟨"/status", []⟩)) (.ofResult (Cli.handleRequest exampleCliState (exampleFs []) ⟨"/operator", []⟩))]).map
      (fun s => decide ("http://a" ∈ s.blocklist)) = some true := by
    decide
  obtain ⟨s, hr, hp⟩ := Option.map_eq_some'.mp hrun
  have hs : CliReachable (exampleEnv ["http://a"]) "http://a" exampleCliState (exampleFs []) s :=
    CliReachable.run (.initial [] (fun _ => []) (fun _ => none))
    (fun j sr opr h => by simp only [List.mem_cons, List.mem_singleton, reduceCtorEq, false_or,
      Choice.probe.injEq, List.not_mem_nil, or_false] at h; exact h.2.2) hr
  exact ⟨s, hs, of_decide_eq_true hp, cliReachable_never_used hs⟩

end

end SubfileExchange
