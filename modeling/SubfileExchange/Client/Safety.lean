/-
  SubfileExchange.Client.Safety

  What holds in every reachable state of the downloader (`Client.Downloader`),
  whatever the endpoints answer and however the threads interleave.

  `Inv` is proved once, from the initial state and for every step, and the
  statements about writes and about the availability check read it off:

  * every write into an output file is made by a task at its own chunk's
    offset, with a prefix of a body it received in a 2xx reply with a
    `Content-Range` header and that verified against its chunk's digest
    (`reachable_wrote_verified`);
  * each probe logs the `/status` and `/operator` replies it got, and its
    result is `check_endpoint_availability` of those replies: an endpoint
    exactly when they find the subfile (`ProbeFinds`);
    `check_availability` probes exactly the static endpoints not in its copy
    of the blocklist, returns exactly the endpoints whose probe succeeded, and
    blocklists every other url it probed; every range request goes to an
    endpoint its own entry's `check_availability` returned, so never to a url
    in that copy; a url whose probe failed is in the copy of every later
    entry's check; and no step removes a blocklist entry (`reachable_availability`).

  Two things the availability check does not do. A task that gives up
  blocklists its request's `query_endpoint` (`<url>/subfiles/id/<hash>`), not
  `url`, so the next entry's `check_availability` probes `url` again; and the
  tasks of an entry keep drawing from the endpoints found at its start, so a
  url a task blocklisted is still drawn for the entry's later indices.
-/
import SubfileExchange.Client.Downloader

namespace SubfileExchange

/-! ## Views of the log -/

/-- The entry an event of `check_availability` belongs to. -/
def Event.entry? : Event → Option Nat
  | .checked k _ => some k
  | .probed k _ _ _ _ => some k
  | _ => none

/-- A probe of entry `k`'s `check_availability`, with its result. -/
def Event.probedIn? (k : Nat) : Event → Option (String × Except String IndexerEndpoint)
  | .probed k' url _ _ res => if k' = k then some (url, res) else none
  | _ => none

/-- The probes of entry `k`'s `check_availability` that ran, in order. -/
def probedIn (k : Nat) (log : List Event) : List (String × Except String IndexerEndpoint) :=
  log.filterMap (Event.probedIn? k)

/-- The endpoints of the probes that succeeded. -/
def endpointsOf (ps : List (String × Except String IndexerEndpoint)) : List IndexerEndpoint :=
  ps.filterMap fun p => p.2.toOption

theorem probedIn?_of_entry?_eq_none {e : Event} (h : e.entry? = none) (k : Nat) :
    e.probedIn? k = none := by
  cases e <;> simp_all [Event.entry?, Event.probedIn?]

theorem probedIn_append_of_none {k : Nat} {log new : List Event}
    (h : ∀ e ∈ new, e.probedIn? k = none) : probedIn k (log ++ new) = probedIn k log := by
  rw [probedIn, List.filterMap_append, List.filterMap_eq_nil_iff.mpr h, List.append_nil]
  rfl

theorem probedIn_append_of_entry? {k : Nat} {log new : List Event}
    (h : ∀ e ∈ new, e.entry? = none) : probedIn k (log ++ new) = probedIn k log :=
  probedIn_append_of_none fun e he => probedIn?_of_entry?_eq_none (h e he) k

theorem mem_probedIn {k : Nat} {log : List Event} {url : String} {res : Except String IndexerEndpoint} :
    (url, res) ∈ probedIn k log ↔ ∃ sr opr, Event.probed k url sr opr res ∈ log := by
  simp only [probedIn, List.mem_filterMap]
  constructor
  · rintro ⟨e, he, hp⟩
    cases e <;> simp only [Event.probedIn?, reduceCtorEq] at hp
    split_ifs at hp with hk
    cases hp; subst hk; exact ⟨_, _, he⟩
  · rintro ⟨sr, opr, h⟩; exact ⟨_, h, by simp [Event.probedIn?]⟩

theorem mem_of_mem_append_entry? {log new : List Event} (hnew : ∀ e ∈ new, e.entry? = none)
    {e : Event} (he : e ∈ log ++ new) (hs : e.entry?.isSome) : e ∈ log := by
  rcases List.mem_append.mp he with he | he
  · exact he
  · rw [hnew e he] at hs; cases hs

theorem mem_endpointsOf {ps : List (String × Except String IndexerEndpoint)} {e : IndexerEndpoint} :
    e ∈ endpointsOf ps ↔ ∃ url, (url, .ok e) ∈ ps := by
  simp only [endpointsOf, List.mem_filterMap, Prod.exists]
  constructor
  · rintro ⟨url, res, hp, hres⟩
    cases res with
    | error => simp [Except.toOption] at hres
    | ok e' => simp only [Except.toOption, Option.some.injEq] at hres; subst hres; exact ⟨url, hp⟩
  · rintro ⟨url, hp⟩
    exact ⟨url, _, hp, rfl⟩

/-! ## The invariant -/

/-- Whether the entry's tasks have started to be spawned. -/
def FilePhase.spawned : FilePhase → Bool
  | .spawning .. => true
  | .joining .. => true
  | _ => false

section
variable (env : DownloaderEnv)

/-- A spawned task was built by the index loop of its entry: from the entry's
    fetched chunk file, writing to the entry's output location, with its
    index's range and digest, towards an endpoint that its entry's
    `check_availability` returned. -/
structure SpecOk (log : List Event) (sp : TaskSpec) : Prop where
  entry : ∃ m f, env.store.manifests env.ipfsHash = some m ∧ m.files[sp.file]? = some f ∧
    env.store.chunkFiles f.hash = some sp.chunkFile ∧ sp.path = outputLocation env f ∧
    sp.request.fileHash = f.hash
  range : chunkRange sp.chunkFile sp.index = .ok (sp.request.start, sp.request.end_)
  hash : sp.chunkFile.chunkHashes[sp.index]? = some sp.request.chunkHash
  endpoint : ∃ pk url sr opr, Event.probed sp.file url sr opr (.ok (pk, url)) ∈ log ∧
    sp.request.queryEndpoint = url ++ "/subfiles/id/" ++ env.ipfsHash
  authToken : sp.request.authToken = env.freeQueryAuthToken
  maxRetry : sp.request.maxRetry = env.chunkMaxRetry

/-- What a logged event says. -/
def EventOk (s : State) : Event → Prop
  | .checked _ _ => True
  | .probed k url sr opr res =>
    (∃ b, Event.checked k b ∈ s.log ∧ url ∈ filteredEndpoints env.staticEndpoints b) ∧
    res = checkEndpointAvailability env.ipfsHash url sr opr ∧
    (res.toOption = none → url ∈ s.blocklist)
  | .sent t target _ => ∃ sp, s.spec? t = some sp ∧ target = sp.request.queryEndpoint
  | .wrote t path offset data =>
    ∃ sp, s.spec? t = some sp ∧ path = sp.path ∧ offset = sp.request.start ∧
      ∃ status b, Event.sent t sp.request.queryEndpoint (.response status true b) ∈ s.log ∧
        isSuccess status = true ∧ verifyChunk env.digest b sp.request.chunkHash = true ∧ data <+: b

/-- Events and tasks of entries past the current one do not exist yet, and those
    of the current one only once its phase has made them. -/
def Ordered (log : List Event) (specs : List TaskSpec) (k : Nat) (ph : FilePhase) : Prop :=
  (∀ e ∈ log, ∀ k', e.entry? = some k' → k' < k ∨ k' = k ∧ ph ≠ .fetch) ∧
  ∀ sp ∈ specs, sp.file < k ∨ sp.file = k ∧ ph.spawned = true

/-- What the current phase of an entry's download says about the log. -/
def PhaseOk (log : List Event) (m : SubfileManifest) (k : Nat) : FilePhase → Prop
  | .fetch => True
  | .probing f c b pending results =>
    m.files[k]? = some f ∧ env.store.chunkFiles f.hash = some c ∧ Event.checked k b ∈ log ∧
    (pending ++ (probedIn k log).map Prod.fst).Perm (filteredEndpoints env.staticEndpoints b) ∧
    results.Perm (endpointsOf (probedIn k log))
  | .create f c eps =>
    m.files[k]? = some f ∧ env.store.chunkFiles f.hash = some c ∧
    (∃ b, Event.checked k b ∈ log ∧
      ((probedIn k log).map Prod.fst).Perm (filteredEndpoints env.staticEndpoints b)) ∧
    eps.Perm (endpointsOf (probedIn k log))
  | .spawning f c eps path _ _ _ =>
    m.files[k]? = some f ∧ env.store.chunkFiles f.hash = some c ∧ path = outputLocation env f ∧
    ∀ e ∈ eps, ∃ sr opr, Event.probed k e.2 sr opr (.ok e) ∈ log
  | .joining _ _ => True

/-- What the main task's position says. -/
def MainOk (log : List Event) (specs : List TaskSpec) : Main → Prop
  | .start => (∀ e ∈ log, e.entry? = none) ∧ specs = []
  | .file m k ph => env.store.manifests env.ipfsHash = some m ∧ Ordered log specs k ph ∧
      PhaseOk env log m k ph
  | .done _ => True

/-- The invariant of the downloader. -/
structure Inv (s : State) : Prop where
  main : MainOk env s.log (s.tasks.map Task.spec) s.main
  specs : ∀ sp ∈ s.tasks.map Task.spec, SpecOk env s.log sp
  events : ∀ e ∈ s.log, EventOk env s e
  checked : ∀ k b b', Event.checked k b ∈ s.log → Event.checked k b' ∈ s.log → b = b'
  /-- A url whose probe failed is in the blocklist copy of every later entry's check. -/
  blocked : ∀ k b k' url sr opr res, Event.checked k b ∈ s.log →
    Event.probed k' url sr opr res ∈ s.log → k' < k → res.toOption = none → url ∈ b

end

/-! ## What the invariant survives -/

section
variable {env : DownloaderEnv} {s s' : State}

theorem probedIn_eq_nil {k : Nat} {log : List Event}
    (h : ∀ e ∈ log, ∀ k', e.entry? = some k' → k' < k) : probedIn k log = [] := by
  refine List.filterMap_eq_nil_iff.mpr fun e he => ?_
  cases e with
  | probed k' url sr opr res =>
    have := h _ he k' rfl
    simp only [Event.probedIn?]; rw [if_neg (by omega)]
  | _ => rfl

theorem SpecOk.mono {log log' : List Event} (h : log <+: log') {sp : TaskSpec}
    (hs : SpecOk env log sp) : SpecOk env log' sp :=
  { hs with endpoint :=
      let ⟨pk, url, sr, opr, hm, he⟩ := hs.endpoint; ⟨pk, url, sr, opr, h.subset hm, he⟩ }

theorem EventOk.mono (hlog : s.log <+: s'.log) (hbl : s.blocklist ⊆ s'.blocklist)
    (hsp : s.tasks.map Task.spec <+: s'.tasks.map Task.spec) {e : Event} (h : EventOk env s e) :
    EventOk env s' e := by
  cases e with
  | checked => trivial
  | probed k url sr opr res =>
    obtain ⟨⟨b, hb, hu⟩, hres, herr⟩ := h
    exact ⟨⟨b, hlog.subset hb, hu⟩, hres, fun h => hbl (herr h)⟩
  | sent t target reply =>
    obtain ⟨sp, hsp', rfl⟩ := h
    exact ⟨sp, spec?_of_prefix hsp hsp', rfl⟩
  | wrote t path off data =>
    obtain ⟨sp, hsp', rfl, rfl, status, b, hsent, hs, hv, hpre⟩ := h
    exact ⟨sp, spec?_of_prefix hsp hsp', rfl, rfl, status, b, hlog.subset hsent, hs, hv, hpre⟩

theorem Ordered.of_frame {log new : List Event} {specs : List TaskSpec} {k : Nat} {ph : FilePhase}
    (h : Ordered log specs k ph) (hnew : ∀ e ∈ new, e.entry? = none) :
    Ordered (log ++ new) specs k ph := by
  refine ⟨fun e he k' hk => ?_, h.2⟩
  rcases List.mem_append.mp he with he | he
  · exact h.1 e he k' hk
  · rw [hnew e he] at hk; cases hk

theorem Ordered.next {log : List Event} {specs : List TaskSpec} {k : Nat} {ph : FilePhase}
    (h : Ordered log specs k ph) : Ordered log specs (k + 1) .fetch := by
  refine ⟨fun e he k' hk => .inl ?_, fun sp hsp => .inl ?_⟩
  · rcases h.1 e he k' hk with h | ⟨rfl, -⟩ <;> omega
  · rcases h.2 sp hsp with h | ⟨h, -⟩ <;> omega

theorem Ordered.advance {log : List Event} {specs : List TaskSpec} {k : Nat} {ph : FilePhase}
    (ph' : FilePhase) (h : Ordered log specs k ph) (h₁ : ph' ≠ .fetch) (h₂ : ph.spawned = true → ph'.spawned = true) :
    Ordered log specs k ph' := by
  refine ⟨fun e he k' hk => ?_, fun sp hsp => ?_⟩
  · rcases h.1 e he k' hk with h | ⟨h, -⟩
    · exact .inl h
    · exact .inr ⟨h, h₁⟩
  · rcases h.2 sp hsp with h | ⟨h, h'⟩
    · exact .inl h
    · exact .inr ⟨h, h₂ h'⟩

theorem Ordered.add_event {log : List Event} {specs : List TaskSpec} {k : Nat} {ph : FilePhase}
    {e : Event} (h : Ordered log specs k ph)
    (he : ∀ k', e.entry? = some k' → k' < k ∨ k' = k ∧ ph ≠ .fetch) :
    Ordered (log ++ [e]) specs k ph := by
  refine ⟨fun e' he' k' hk => ?_, h.2⟩
  rcases List.mem_append.mp he' with he' | he'
  · exact h.1 e' he' k' hk
  · rw [List.mem_singleton] at he'; subst he'; exact he k' hk

theorem PhaseOk.of_frame {log new : List Event} {m : SubfileManifest} {k : Nat} {ph : FilePhase}
    (h : PhaseOk env log m k ph) (hnew : ∀ e ∈ new, e.entry? = none) :
    PhaseOk env (log ++ new) m k ph := by
  cases ph with
  | fetch => trivial
  | probing f c b pending results =>
    obtain ⟨hf, hc, hb, hp, hr⟩ := h
    exact ⟨hf, hc, List.mem_append_left _ hb, by rwa [probedIn_append_of_entry? hnew],
      by rwa [probedIn_append_of_entry? hnew]⟩
  | create f c eps =>
    obtain ⟨hf, hc, ⟨b, hb, hp⟩, hr⟩ := h
    exact ⟨hf, hc, ⟨b, List.mem_append_left _ hb, by rwa [probedIn_append_of_entry? hnew]⟩,
      by rwa [probedIn_append_of_entry? hnew]⟩
  | spawning f c eps path i n hs =>
    obtain ⟨hf, hc, hpath, he⟩ := h
    exact ⟨hf, hc, hpath, fun e hm => let ⟨sr, opr, hp⟩ := he e hm; ⟨sr, opr, List.mem_append_left _ hp⟩⟩
  | joining => trivial

/-- Steps that add no event of `check_availability` and spawn no task keep `MainOk`
    of an unchanged position. -/
theorem MainOk.of_frame {log new : List Event} {specs : List TaskSpec} {mn : Main}
    (h : MainOk env log specs mn) (hnew : ∀ e ∈ new, e.entry? = none) :
    MainOk env (log ++ new) specs mn := by
  cases mn with
  | start =>
    exact ⟨fun e he => (List.mem_append.mp he).elim (h.1 e) (hnew e), h.2⟩
  | file m k ph => exact ⟨h.1, h.2.1.of_frame hnew, h.2.2.of_frame hnew⟩
  | done => trivial

end

/-! ## Every step keeps the invariant -/

section
variable {env : DownloaderEnv} {s s' : State}

theorem probedIn_append_probed {k : Nat} {log : List Event} {url : String} {sr opr : ProbeReply}
    {res : Except String IndexerEndpoint} :
    probedIn k (log ++ [.probed k url sr opr res]) = probedIn k log ++ [(url, res)] := by
  simp [probedIn, Event.probedIn?]

theorem endpointsOf_append_single {ps : List (String × Except String IndexerEndpoint)}
    {url : String} {res : Except String IndexerEndpoint} :
    endpointsOf (ps ++ [(url, res)]) = endpointsOf ps ++ res.toOption.toList := by
  cases res <;> simp [endpointsOf, Except.toOption]

/-- A step that leaves the main task and the log alone and changes no task's
    spec keeps the invariant. -/
theorem Inv.of_frame (hinv : Inv env s) (hmain : s'.main = s.main) (hlog : s'.log = s.log)
    (hspecs : s'.tasks.map Task.spec = s.tasks.map Task.spec) (hbl : s.blocklist ⊆ s'.blocklist) :
    Inv env s' :=
  ⟨by rw [hmain, hlog, hspecs]; exact hinv.main, by rw [hlog, hspecs]; exact hinv.specs,
    fun e he => (hinv.events e (hlog ▸ he)).mono (hlog ▸ List.prefix_refl _) hbl
      (hspecs ▸ List.prefix_refl _),
    by rw [hlog]; exact hinv.checked, by rw [hlog]; exact hinv.blocked⟩

theorem Inv.completeStep {t : Nat} (hinv : Inv env s) (h : completeStep s t = some s') :
    Inv env s' := by
  have hbl := step_blocklist_subset (show step env s (.complete t) = some s' from h)
  obtain ⟨task, -, ⟨-, rfl⟩ | ⟨-, rfl⟩⟩ := completeStep_eq_some h <;>
    exact hinv.of_frame rfl rfl (completeStep_specs h) hbl

theorem Inv.taskStep {t : Nat} {reply : RangeReply} {io : WriteIo} (hinv : Inv env s)
    (h : taskStep env s t reply io = some s') : Inv env s' := by
  have h' : step env s (.task t reply io) = some s' := h
  have hsp := step_specs_grow h'
  have hbl := step_blocklist_subset h'
  have hlp := step_log_grows h'
  have hspecs := taskStep_specs h
  obtain ⟨task, ht, -, ⟨-, hpanic⟩ | ⟨-, hmain, -, -, -, -, hlog, -⟩⟩ := taskStep_eq_some h
  · subst hpanic
    exact hinv.of_frame rfl rfl hspecs hbl
  have hts : s'.spec? t = some task.spec := spec?_of_prefix hsp (by simp [State.spec?, ht])
  set r := task.spec.request
  set a := attempt env.digest r task.attempts (rangeReplyResult reply) io
  have hnew : ∀ e ∈ Event.sent t r.queryEndpoint reply ::
      (if a.written = [] then [] else [.wrote t task.spec.path r.start a.written]), e.entry? = none := by
    intro e he
    split_ifs at he <;> simp only [List.mem_cons, List.mem_singleton, List.not_mem_nil,
      or_false] at he <;> rcases he with rfl | rfl <;> rfl
  have hold : ∀ e ∈ s'.log, e.entry?.isSome → e ∈ s.log := fun e he => by
    rw [hlog] at he; exact mem_of_mem_append_entry? hnew he
  refine ⟨?_, ?_, fun e he => ?_, fun k b b' hb hb' => hinv.checked k b b' (hold _ hb rfl)
    (hold _ hb' rfl), fun k b k' url sr opr res hb hp => hinv.blocked k b k' url sr opr res
    (hold _ hb rfl) (hold _ hp rfl)⟩
  · rw [hmain, hlog, hspecs]; exact hinv.main.of_frame hnew
  · rw [hspecs]; exact fun sp hm => (hinv.specs sp hm).mono hlp
  · rw [hlog] at he
    rcases List.mem_append.mp he with he | he
    · exact (hinv.events e he).mono hlp hbl hsp
    rcases List.mem_cons.mp he with rfl | he
    · exact ⟨task.spec, hts, rfl⟩
    split_ifs at he with hw
    · cases he
    rw [List.mem_singleton] at he; subst he
    obtain ⟨b, hb, hv, hpre⟩ := attempt_written hw
    obtain ⟨status, rfl, hs⟩ := rangeReplyResult_eq_ok.mp hb
    exact ⟨task.spec, hts, rfl, rfl, status, b, by rw [hlog]; simp, hs, hv, hpre⟩

theorem Inv.probeStep {j : Nat} {sr opr : ProbeReply} (hinv : Inv env s)
    (h : probeStep env s j sr opr = some s') : Inv env s' := by
  have hbl := step_blocklist_subset (show step env s (.probe j sr opr) = some s' from h)
  obtain ⟨m, k, f, c, b, pending, results, url, hm, hj, rfl⟩ := probeStep_eq_some h
  have hmain := hinv.main
  rw [hm] at hmain
  obtain ⟨hman, hord, hf, hc, hb, hp, hr⟩ := hmain
  have hurl : url ∈ filteredEndpoints env.staticEndpoints b :=
    hp.subset (List.mem_append_left _ (List.getElem?_mem hj))
  refine ⟨⟨hman, ?_, hf, hc, List.mem_append_left _ hb, ?_, ?_⟩,
    fun sp hsp => (hinv.specs sp hsp).mono (List.prefix_append _ _), fun e he => ?_,
    fun k' b₁ b₂ h₁ h₂ => ?_, fun k₁ b₁ k' url' sr' opr' res' h₁ h₂ hk hres => ?_⟩
  · refine Ordered.add_event (Ordered.advance _ hord nofun nofun) fun k' hk => ?_
    cases hk; exact .inr ⟨rfl, nofun⟩
  · rw [probedIn_append_probed, List.map_append, List.map_singleton]
    refine List.Perm.trans ?_ (((perm_eraseIdx_append hj).append_right _).trans hp)
    rw [List.append_assoc]
    exact List.perm_append_comm.append_left _
  · rw [probedIn_append_probed, endpointsOf_append_single]
    split <;> rename_i hres <;> simp only [hres, Except.toOption, Option.toList_some,
      Option.toList_none, List.append_nil]
    · exact hr.append_right _
    · exact hr
  · rcases List.mem_append.mp he with he | he
    · exact (hinv.events e he).mono (List.prefix_append _ _) hbl (List.prefix_refl _)
    rw [List.mem_singleton] at he; subst he
    refine ⟨⟨b, List.mem_append_left _ hb, hurl⟩, rfl, fun hnone => ?_⟩
    dsimp only
    split <;> rename_i hres
    · simp [hres, Except.toOption] at hnone
    · exact List.mem_insert_self _ _
  · simp only [List.mem_append, List.mem_singleton, reduceCtorEq, or_false] at h₁ h₂
    exact hinv.checked _ _ _ h₁ h₂
  · simp only [List.mem_append, List.mem_singleton, reduceCtorEq, or_false,
      Event.probed.injEq] at h₁ h₂
    rcases h₂ with h₂ | ⟨rfl, -, -, -, -⟩
    · exact hinv.blocked _ _ _ _ _ _ _ h₁ h₂ hk hres
    · rcases hord.1 _ h₁ k₁ rfl with h | ⟨rfl, -⟩ <;> omega

theorem MainMove.log_eq (h : MainMove env s s') :
    s'.log = s.log ∨ ∃ m k, s.main = .file m k .fetch ∧ s'.log = s.log ++ [.checked k s.blocklist] := by
  cases h <;> first | exact .inl rfl | (split_ifs <;> exact .inl rfl) |
    exact .inr ⟨_, _, ‹_›, rfl⟩

/-- The main task's position after each of its moves. -/
theorem MainMove.mainOk (hinv : Inv env s) (hmove : MainMove env s s') :
    MainOk env s'.log (s'.tasks.map Task.spec) s'.main := by
  have hmain := hinv.main
  cases hmove with
  | fetchManifest hm hf =>
    rw [hm] at hmain
    refine ⟨fetchSubfileFromIpfs_eq_ok.mp hf, ⟨fun e he k' hk => ?_, by simp [hmain.2]⟩, trivial⟩
    rw [hmain.1 e he] at hk; cases hk
  | fetchManifestFailed | finish | fetchChunkFilePanicked | createLoopPanicked | createFailed
  | spawnPanicked => trivial
  | @fetchChunkFile m k f c hm hf hc =>
    rw [hm] at hmain
    obtain ⟨hman, hord, -⟩ := hmain
    have hnil : probedIn k (s.log ++ [.checked k s.blocklist]) = [] := by
      rw [probedIn_append_of_none (by simp [Event.probedIn?])]
      exact probedIn_eq_nil fun e he k' hk => (hord.1 e he k' hk).resolve_right fun h => h.2 rfl
    refine ⟨hman, ?_, hf, fetchChunkFileFromIpfs_eq_ok.mp hc,
      List.mem_append_right _ (List.mem_singleton_self _), by simp [hnil], by simp [hnil, endpointsOf]⟩
    refine Ordered.add_event (Ordered.advance _ hord nofun nofun) fun k' hk => ?_
    cases hk; exact .inr ⟨rfl, nofun⟩
  | fetchChunkFileFailed hm | spawnFailed hm | joinMetadataFailed hm | joinPanicked hm =>
    rw [hm] at hmain
    exact ⟨hmain.1, hmain.2.1.next, trivial⟩
  | probesDone hm =>
    rw [hm] at hmain
    obtain ⟨hman, hord, hf, hc, hb, hp, hr⟩ := hmain
    exact ⟨hman, hord.advance _ nofun nofun, hf, hc, ⟨_, hb, by simpa using hp⟩, hr⟩
  | create hm hn =>
    rw [hm] at hmain
    obtain ⟨hman, hord, hf, hc, -, hr⟩ := hmain
    refine ⟨hman, hord.advance _ nofun nofun, hf, hc, rfl, fun e he => ?_⟩
    obtain ⟨url, hu⟩ := mem_endpointsOf.mp (hr.subset he)
    obtain ⟨sr, opr, hev⟩ := mem_probedIn.mp hu
    obtain ⟨-, hres, -⟩ := hinv.events _ hev
    obtain ⟨-, -, -, pk, -, -, -, -, -, rfl⟩ := checkEndpointAvailability_eq_ok.mp hres.symm
    exact ⟨sr, opr, hev⟩
  | @spawn m k f c eps path i n draw handles r hm hi hr =>
    rw [hm] at hmain
    obtain ⟨hman, hord, hph⟩ := hmain
    refine ⟨hman, ⟨(Ordered.advance (.spawning f c eps path (i + 1) n (handles ++ [s.tasks.length]))
      hord nofun fun _ => rfl).1, fun sp hsp => ?_⟩, hph⟩
    rcases mem_map_concat hsp with hsp | rfl
    · exact hord.2 sp hsp
    · exact .inr ⟨rfl, rfl⟩
  | loopDone hm | joinOk hm | joinErr hm =>
    rw [hm] at hmain
    exact ⟨hmain.1, hmain.2.1.advance _ nofun fun _ => rfl, trivial⟩
  | joinedAll hm =>
    rw [hm] at hmain
    split_ifs <;> exact ⟨hmain.1, hmain.2.1.next, trivial⟩

theorem MainMove.specOk (hinv : Inv env s) (hmove : MainMove env s s') :
    ∀ sp ∈ s'.tasks.map Task.spec, SpecOk env s'.log sp := by
  have hold : ∀ sp ∈ s.tasks.map Task.spec, SpecOk env s'.log sp :=
    fun sp h => (hinv.specs sp h).mono hmove.log_grows
  have hmain := hinv.main
  cases hmove with
  | @spawn m k f c eps path i n draw handles r hm hi hr =>
    intro sp hsp
    rcases mem_map_concat hsp with hsp | rfl
    · exact hold sp hsp
    rw [hm] at hmain
    obtain ⟨hman, -, hf, hc, hpath, heps⟩ := hmain
    obtain ⟨pk, url, hch, hrange, hidx, hq, htok, hfh, hmr⟩ := downloadRangeRequest_eq_ok.mp hr
    obtain ⟨sr, opr, hp⟩ := heps _ (chooseEndpoint_mem hch)
    exact ⟨⟨m, f, hman, hf, hc, hpath, hfh⟩, hrange, index_eq_ok.mp hidx, ⟨pk, url, sr, opr, hp, hq⟩,
      htok, hmr⟩
  | joinedAll => split_ifs at hold ⊢ <;> exact hold
  | _ => exact hold

theorem MainMove.eventOk (hinv : Inv env s) (hmove : MainMove env s s') :
    ∀ e ∈ s'.log, EventOk env s' e := by
  have hmono := fun e he => (hinv.events e he).mono hmove.log_grows
    (hmove.blocklist_eq ▸ List.Subset.refl _) hmove.specs_grow
  intro e he
  rcases hmove.log_eq with hlog | ⟨m, k, -, hlog⟩ <;> rw [hlog] at he
  · exact hmono e he
  · rcases List.mem_append.mp he with he | he
    · exact hmono e he
    · rw [List.mem_singleton] at he; subst he; trivial

theorem MainMove.checkedUnique (hinv : Inv env s) (hmove : MainMove env s s') :
    ∀ k b b', Event.checked k b ∈ s'.log → Event.checked k b' ∈ s'.log → b = b' := by
  rcases hmove.log_eq with hlog | ⟨m, k₀, hm, hlog⟩ <;> rw [hlog]
  · exact hinv.checked
  have hmain := hinv.main
  rw [hm] at hmain
  have hold : ∀ b, Event.checked k₀ b ∉ s.log := fun b hb => by
    rcases hmain.2.1.1 _ hb k₀ rfl with h | ⟨-, h⟩
    · exact Nat.lt_irrefl _ h
    · exact h rfl
  intro k b b' h₁ h₂
  simp only [List.mem_append, List.mem_singleton, Event.checked.injEq] at h₁ h₂
  rcases h₁ with h₁ | ⟨rfl, rfl⟩ <;> rcases h₂ with h₂ | ⟨h, rfl⟩
  · exact hinv.checked _ _ _ h₁ h₂
  · exact absurd (h ▸ h₁) (hold _)
  · exact absurd h₂ (hold _)
  · rfl

/-- The check that `fetchChunkFile` starts copies the blocklist, which holds
    every url whose probe failed. -/
theorem MainMove.blocked (hinv : Inv env s) (hmove : MainMove env s s') :
    ∀ k b k' url sr opr res, Event.checked k b ∈ s'.log → Event.probed k' url sr opr res ∈ s'.log →
      k' < k → res.toOption = none → url ∈ b := by
  rcases hmove.log_eq with hlog | ⟨m, k₀, -, hlog⟩ <;> rw [hlog]
  · exact hinv.blocked
  intro k b k' url sr opr res hb hp hk hres
  simp only [List.mem_append, List.mem_singleton, reduceCtorEq, or_false,
    Event.checked.injEq] at hb hp
  rcases hb with hb | ⟨-, rfl⟩
  · exact hinv.blocked _ _ _ _ _ _ _ hb hp hk hres
  · exact (hinv.events _ hp).2.2 hres

theorem Inv.mainMove (hinv : Inv env s) (hmove : MainMove env s s') : Inv env s' :=
  ⟨hmove.mainOk hinv, hmove.specOk hinv, hmove.eventOk hinv, hmove.checkedUnique hinv,
    hmove.blocked hinv⟩

/-- Every step keeps the invariant. -/
theorem Inv.step {c : Choice} (hinv : Inv env s) (h : step env s c = some s') : Inv env s' := by
  cases c with
  | main => exact hinv.mainMove (mainStep_move h)
  | probe => exact hinv.probeStep h
  | task => exact hinv.taskStep h
  | complete => exact hinv.completeStep h

theorem Inv.initial (blocklist : List String) (pending : String → List Nat)
    (files : List String → Option Bytes) : Inv env (.initial blocklist pending files) :=
  ⟨⟨nofun, rfl⟩, nofun, nofun, nofun, nofun⟩

/-- Every reachable state satisfies the invariant. -/
theorem Reachable.inv (h : Reachable env s) : Inv env s := by
  induction h with
  | initial => exact .initial _ _ _
  | step _ hs ih => exact ih.step hs

end

/-! ## Writes -/

section
variable {env : DownloaderEnv} {s : State}

theorem mem_specs_of_spec? {t : Nat} {sp : TaskSpec} (h : s.spec? t = some sp) :
    sp ∈ s.tasks.map Task.spec := by
  obtain ⟨task, ht, rfl⟩ := Option.map_eq_some'.mp h
  exact List.mem_map_of_mem _ (List.getElem?_mem ht)

/-- What backs a write of `data` at `offset` into the file at `path` by task `t`:
    the task was spawned for an entry `f` of the manifest, `path` is `f`'s output
    file, `offset` is `i * chunk_size` for the task's index `i`, and `data` is a
    prefix of a body the task received in a 2xx reply with a `Content-Range`
    header, which verifies against `chunk_hashes[i]` of `f`'s chunk file. -/
def WriteVerified (env : DownloaderEnv) (s : State) (t : Nat) (path : List String) (offset : Nat)
    (data : Bytes) : Prop :=
  ∃ sp m f, s.spec? t = some sp ∧ env.store.manifests env.ipfsHash = some m ∧
    m.files[sp.file]? = some f ∧ env.store.chunkFiles f.hash = some sp.chunkFile ∧
    path = outputLocation env f ∧ offset = sp.index * sp.chunkFile.chunkSize.toNat ∧
    ∃ status b h, Event.sent t sp.request.queryEndpoint (.response status true b) ∈ s.log ∧
      isSuccess status = true ∧ sp.chunkFile.chunkHashes[sp.index]? = some h ∧
      verifyChunk env.digest b h = true ∧ data <+: b

/-- In every reachable state, every write into a file is backed by a verified
    reply (`WriteVerified`). -/
theorem reachable_wrote_verified (hs : Reachable env s) {t : Nat} {path : List String}
    {offset : Nat} {data : Bytes} (hw : Event.wrote t path offset data ∈ s.log) :
    WriteVerified env s t path offset data := by
  have hinv := hs.inv
  obtain ⟨sp, hsp, rfl, rfl, status, b, hsent, hst, hv, hpre⟩ := hinv.events _ hw
  have hok := hinv.specs sp (mem_specs_of_spec? hsp)
  obtain ⟨m, f, hm, hf, hc, hpath, -⟩ := hok.entry
  obtain ⟨-, -, hstart, -⟩ := chunkRange_eq_ok.mp hok.range
  exact ⟨sp, m, f, hsp, hm, hf, hc, hpath, hstart, status, b, _, hsent, hst, hok.hash, hv, hpre⟩

theorem reachable_wrote_verified_example :
    ∃ s, Reachable (exampleEnv ["http://a"]) s ∧
      Event.wrote 1 ["home", "out", "a.bin"] 4 [4] ∈ s.log ∧
      WriteVerified (exampleEnv ["http://a"]) s 1 ["home", "out", "a.bin"] 4 [4] := by
  obtain ⟨s, hs, hw⟩ := (exampleStart_reachable (exampleEnv ["http://a"])).exists_of_run
    exampleRun (fun s => decide (Event.wrote 1 ["home", "out", "a.bin"] 4 [4] ∈ s.log)) (by decide)
  exact ⟨s, hs, of_decide_eq_true hw, reachable_wrote_verified hs (of_decide_eq_true hw)⟩

end

/-! ## The availability check -/

section
variable {env : DownloaderEnv} {s : State}

/-- What a probe's replies must say for it to keep its endpoint: `/status`
    succeeded with a list of hashes holding `ipfsHash`, and `/operator` succeeded
    naming the operator's `publicKey`. -/
def ProbeFinds (ipfsHash : String) (statusReply operatorReply : ProbeReply) (publicKey : String) :
    Prop :=
  ∃ status files status', statusReply = .response status (.strings files) ∧
    isSuccess status = true ∧ ipfsHash ∈ files ∧
    operatorReply = .response status' (.operator publicKey) ∧ isSuccess status' = true

theorem checkEndpointAvailability_eq_ok_iff_finds {ipfsHash url : String} {sr opr : ProbeReply}
    {e : IndexerEndpoint} :
    checkEndpointAvailability ipfsHash url sr opr = .ok e ↔
      ∃ pk, ProbeFinds ipfsHash sr opr pk ∧ e = (pk, url) := by
  rw [checkEndpointAvailability_eq_ok]
  constructor
  · rintro ⟨status, files, status', pk, h₁, h₂, h₃, h₄, h₅, rfl⟩
    exact ⟨pk, ⟨status, files, status', h₁, h₂, h₃, h₄, h₅⟩, rfl⟩
  · rintro ⟨pk, ⟨status, files, status', h₁, h₂, h₃, h₄, h₅⟩, rfl⟩
    exact ⟨status, files, status', pk, h₁, h₂, h₃, h₄, h₅, rfl⟩

/-- What `check_availability` and the blocklist guarantee in a state: every probe's
    result is `check_endpoint_availability` of the `/status` and `/operator` replies
    it received, an endpoint exactly when those replies find the subfile, and a url
    whose probe failed is in the blocklist; when entry `k`'s check has returned, it
    probed exactly the static endpoints not in its copy `b` of the blocklist and
    returned exactly the endpoints of the probes that succeeded; no probe contacts a
    url of its check's copy; every range request goes to `<url>/subfiles/id/<hash>`
    for an endpoint `url` its own entry's check returned, which is not in that
    check's copy; and a url whose probe failed is in the copy of every later entry's
    check. -/
def AvailabilityOk (env : DownloaderEnv) (s : State) : Prop :=
  (∀ k url sr opr res, Event.probed k url sr opr res ∈ s.log →
    res = checkEndpointAvailability env.ipfsHash url sr opr ∧
    (∀ e, res = .ok e ↔ ∃ pk, ProbeFinds env.ipfsHash sr opr pk ∧ e = (pk, url)) ∧
    (res.toOption = none → url ∈ s.blocklist)) ∧
  (∀ m k f c eps, s.main = .file m k (.create f c eps) →
    ∃ b, Event.checked k b ∈ s.log ∧
      ((probedIn k s.log).map Prod.fst).Perm (filteredEndpoints env.staticEndpoints b) ∧
      eps.Perm (endpointsOf (probedIn k s.log))) ∧
  (∀ k url sr opr res b, Event.probed k url sr opr res ∈ s.log → Event.checked k b ∈ s.log →
    url ∉ b) ∧
  (∀ t target reply, Event.sent t target reply ∈ s.log →
    ∃ sp pk url sr opr, s.spec? t = some sp ∧
      Event.probed sp.file url sr opr (.ok (pk, url)) ∈ s.log ∧
      target = url ++ "/subfiles/id/" ++ env.ipfsHash ∧
      ∀ b, Event.checked sp.file b ∈ s.log → url ∉ b) ∧
  (∀ k b k' url sr opr res, Event.checked k b ∈ s.log →
    Event.probed k' url sr opr res ∈ s.log → k' < k → res.toOption = none → url ∈ b)

theorem Inv.probed_not_mem (hinv : Inv env s) {k : Nat} {url : String} {sr opr : ProbeReply}
    {res : Except String IndexerEndpoint} {b : List String}
    (hp : Event.probed k url sr opr res ∈ s.log) (hb : Event.checked k b ∈ s.log) : url ∉ b := by
  obtain ⟨⟨b', hb', hu⟩, -⟩ := hinv.events _ hp
  rw [hinv.checked k b b' hb hb']
  exact not_mem_of_mem_filteredEndpoints hu

/-- In every reachable state `AvailabilityOk` holds; no step removes a blocklist
    entry; and a probe logs the `/status` and `/operator` replies it was given. -/
theorem reachable_availability (hs : Reachable env s) :
    AvailabilityOk env s ∧ (∀ c s', step env s c = some s' → s.blocklist ⊆ s'.blocklist) ∧
      ∀ j sr opr s', step env s (.probe j sr opr) = some s' →
        ∃ k url res, s'.log = s.log ++ [.probed k url sr opr res] := by
  have hinv := hs.inv
  refine ⟨⟨fun k url sr opr res hp => ?_, fun m k f c eps hm => ?_,
    fun k url sr opr res b hp hb => hinv.probed_not_mem hp hb, fun t target reply hsent => ?_,
    hinv.blocked⟩, fun c s' h => step_blocklist_subset h, fun j sr opr s' h => ?_⟩
  · obtain ⟨-, rfl, herr⟩ := hinv.events _ hp
    exact ⟨rfl, fun e => checkEndpointAvailability_eq_ok_iff_finds, herr⟩
  · have hmain := hinv.main
    rw [hm] at hmain
    obtain ⟨-, -, -, -, ⟨b, hb, hp⟩, hr⟩ := hmain
    exact ⟨b, hb, hp, hr⟩
  · obtain ⟨sp, hsp, rfl⟩ := hinv.events _ hsent
    obtain ⟨pk, url, sr, opr, hp, hq⟩ := (hinv.specs sp (mem_specs_of_spec? hsp)).endpoint
    exact ⟨sp, pk, url, sr, opr, hsp, hp, hq, fun b hb => hinv.probed_not_mem hp hb⟩
  · obtain ⟨_, k, _, _, _, _, _, url, -, -, rfl⟩ := probeStep_eq_some h
    exact ⟨k, url, _, rfl⟩

/-- The check of `a.bin` against `http://a`, which serves it, and `http://b`, which
    does not answer: `http://b` is blocklisted. -/
theorem reachable_availability_example :
    ∃ s, Reachable (exampleEnv ["http://a", "http://b"]) s ∧ "http://b" ∈ s.blocklist ∧
      AvailabilityOk (exampleEnv ["http://a", "http://b"]) s ∧
      (∀ c s', step (exampleEnv ["http://a", "http://b"]) s c = some s' → s.blocklist ⊆ s'.blocklist) ∧
      ∀ j sr opr s', step (exampleEnv ["http://a", "http://b"]) s (.probe j sr opr) = some s' →
        ∃ k url res, s'.log = s.log ++ [.probed k url sr opr res] := by
  obtain ⟨s, hs, hb⟩ := (exampleStart_reachable (exampleEnv ["http://a", "http://b"])).exists_of_run
    [.main true 0, .main true 0, .probe 0 servingStatus servingOperator,
      .probe 0 .transportError .transportError, .main true 0]
    (fun s => decide ("http://b" ∈ s.blocklist)) (by decide)
  exact ⟨s, hs, of_decide_eq_true hb, reachable_availability hs⟩

/-- The tasks of an entry keep sending to a target a task of the entry gave up on
    and blocklisted: with one endpoint and one attempt per chunk, chunk 0's request
    fails and task 0 blocklists `http://a/subfiles/id/m`; task 1 then sends its
    request there. -/
theorem blocklisted_target_sent_again :
    ∃ s₁ s₂, Reachable (exampleEnv ["http://a"]) s₁ ∧
      step (exampleEnv ["http://a"]) s₁ (.task 1 (chunkReply 1) .ok) = some s₂ ∧
      "http://a/subfiles/id/m" ∈ s₁.blocklist ∧
      Event.sent 1 "http://a/subfiles/id/m" (chunkReply 1) ∉ s₁.log ∧
      Event.sent 1 "http://a/subfiles/id/m" (chunkReply 1) ∈ s₂.log := by
  obtain ⟨s₁, hs, hp⟩ := (exampleStart_reachable (exampleEnv ["http://a"])).exists_of_run
    (exampleSpawn 1 (fun _ => 0) ++ [.task 0 .transportError .ok, .complete 0])
    (fun s => decide ("http://a/subfiles/id/m" ∈ s.blocklist) &&
      decide (Event.sent 1 "http://a/subfiles/id/m" (chunkReply 1) ∉ s.log) &&
      (step (exampleEnv ["http://a"]) s (.task 1 (chunkReply 1) .ok)).any
        fun s₂ : State => decide (Event.sent 1 "http://a/subfiles/id/m" (chunkReply 1) ∈ s₂.log))
    (by decide)
  simp only [Bool.and_eq_true, decide_eq_true_eq] at hp
  obtain ⟨⟨hb, hn⟩, h₂⟩ := hp
  cases h : step (exampleEnv ["http://a"]) s₁ (.task 1 (chunkReply 1) .ok) with
  | none => simp [h] at h₂
  | some s₂ => exact ⟨s₁, s₂, hs, h, hb, hn, by simpa [h] using h₂⟩

end

/-! ## The files a step touches -/

section
variable {env : DownloaderEnv} {s s' : State}

/-- `path` is the output location of an entry of the manifest, which lies below
    `output_dir` when that is nonempty and the entry's name has no `..` component. -/
def OutputOfEntry (env : DownloaderEnv) (path : List String) : Prop :=
  ∃ m f, env.store.manifests env.ipfsHash = some m ∧ f ∈ m.files ∧ path = outputLocation env f ∧
    (env.outputDir ≠ "" → parentComponent ∉ splitSlash f.name.data →
      resolvePath env.cwd env.outputDir <+: path)

theorem outputOfEntry_of_getElem? {m : SubfileManifest} {k : Nat} {f : FileMetaInfo}
    (hm : env.store.manifests env.ipfsHash = some m) (hf : m.files[k]? = some f) :
    OutputOfEntry env (outputLocation env f) :=
  ⟨m, f, hm, List.getElem?_mem hf, rfl, fun hdir hname => outputPath_inside env.cwd hdir hname⟩

/-- In every reachable state, a step creates, truncates or writes only the output
    file of an entry of the manifest, and that file lies below a nonempty
    `output_dir` when the entry's name has no `..` component. -/
theorem reachable_step_files_inside (hs : Reachable env s) {c : Choice}
    (hstep : step env s c = some s') {path : List String} (hp : s'.files path ≠ s.files path) :
    OutputOfEntry env path := by
  have hinv := hs.inv
  have hupd : ∀ {p v}, s'.files = Function.update s.files p v → path = p := fun hf => by
    by_contra hne
    exact hp (by rw [hf, Function.update_noteq hne])
  cases c with
  | main =>
    rcases (mainStep_move hstep).files_eq with hf | ⟨m, k, f, c, eps, hm, hf⟩
    · exact absurd (congrFun hf path) hp
    · have hmain := hinv.main
      rw [hm] at hmain
      rw [hupd hf]
      exact outputOfEntry_of_getElem? hmain.1 hmain.2.2.1
  | probe =>
    obtain ⟨_, _, _, _, _, _, _, _, -, -, rfl⟩ := probeStep_eq_some hstep
    exact absurd rfl hp
  | task =>
    obtain ⟨task, ht, -, ⟨-, rfl⟩ | ⟨-, -, -, -, -, -, -, hfiles⟩⟩ := taskStep_eq_some hstep
    · exact absurd rfl hp
    split_ifs at hfiles
    · exact absurd (congrFun hfiles path) hp
    obtain ⟨m, f, hm, hf, -, hpath, -⟩ :=
      (hinv.specs task.spec (List.mem_map_of_mem _ (List.getElem?_mem ht))).entry
    rw [hupd hfiles, hpath]
    exact outputOfEntry_of_getElem? hm hf
  | complete =>
    obtain ⟨_, -, ⟨-, rfl⟩ | ⟨-, rfl⟩⟩ := completeStep_eq_some hstep <;> exact absurd rfl hp

theorem reachable_step_files_inside_example :
    ∃ s s', Reachable (exampleEnv ["http://a"]) s ∧
      step (exampleEnv ["http://a"]) s (.main true 0) = some s' ∧
      s'.files ["home", "out", "a.bin"] ≠ s.files ["home", "out", "a.bin"] ∧
      OutputOfEntry (exampleEnv ["http://a"]) ["home", "out", "a.bin"] := by
  obtain ⟨s, hs, hp⟩ := (exampleStart_reachable (exampleEnv ["http://a"])).exists_of_run
    [.main true 0, .main true 0, .probe 0 servingStatus servingOperator, .main true 0]
    (fun s => (step (exampleEnv ["http://a"]) s (.main true 0)).any
      fun s' : State => decide (s'.files ["home", "out", "a.bin"] ≠ s.files ["home", "out", "a.bin"]))
    (by decide)
  cases h : step (exampleEnv ["http://a"]) s (.main true 0) with
  | none => simp [h] at hp
  | some s' =>
    have hne : s'.files ["home", "out", "a.bin"] ≠ s.files ["home", "out", "a.bin"] := by
      simpa [h] using hp
    exact ⟨s, s', hs, h, hne, reachable_step_files_inside hs h hne⟩

/-- A manifest entry named `../x` makes the downloader create `/home/x`, outside
    its output directory `/home/out`; and with an empty `output_dir` an entry
    `a.bin` is created at `/a.bin`, outside the working directory `/home`. -/
theorem outputLocation_escapes :
    (∃ s, Reachable ⟨exampleDigest, exampleStore "../x" exampleChunkFile, "m", ["http://a"], "out",
        some "Bearer t", 1, ["home"]⟩ s ∧
      s.files ["home", "x"] = some [] ∧ ¬ resolvePath ["home"] "out" <+: ["home", "x"]) ∧
    (∃ s, Reachable ⟨exampleDigest, exampleStore "a.bin" exampleChunkFile, "m", ["http://a"], "",
        some "Bearer t", 1, ["home"]⟩ s ∧
      s.files ["a.bin"] = some [] ∧ ¬ resolvePath ["home"] "" <+: ["a.bin"]) := by
  obtain ⟨s₁, hs₁, h₁⟩ := (exampleStart_reachable ⟨exampleDigest, exampleStore "../x" exampleChunkFile,
    "m", ["http://a"], "out", some "Bearer t", 1, ["home"]⟩).exists_of_run
    [.main true 0, .main true 0, .probe 0 servingStatus servingOperator, .main true 0, .main true 0]
    (fun s => decide (s.files ["home", "x"] = some [])) (by decide)
  obtain ⟨s₂, hs₂, h₂⟩ := (exampleStart_reachable ⟨exampleDigest, exampleStore "a.bin" exampleChunkFile,
    "m", ["http://a"], "", some "Bearer t", 1, ["home"]⟩).exists_of_run
    [.main true 0, .main true 0, .probe 0 servingStatus servingOperator, .main true 0, .main true 0]
    (fun s => decide (s.files ["a.bin"] = some [])) (by decide)
  exact ⟨⟨s₁, hs₁, of_decide_eq_true h₁, by decide⟩, ⟨s₂, hs₂, of_decide_eq_true h₂, by decide⟩⟩

end

end SubfileExchange
