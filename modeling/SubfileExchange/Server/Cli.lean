/-
  SubfileExchange.Server.Cli

  The server of the `subfile-cli` crate (`subfile-cli/src/subfile_server/mod.rs`),
  an older copy of the `subfile-exchange` server of `Server.Handler` and
  `Server.Init`. Three things differ. Its `ServerState` has no operator key.
  Its startup reads each entry's subfile from the content store and serves it
  as it is: no local file is read, so nothing checks that the bytes it will
  serve verify. And `/operator` answers the text `TODO: Operator info`. The
  other handlers are the same code, reading the subfiles, the release and the
  token, and are modelled by the newer server's definitions applied to the
  older state (`ServerState.withOperator`).

  The crate's own `subfile_reader::read_subfile`, which its startup calls, is not
  among the sources (`subfile-cli/src` holds only `lib.rs` and the server). It
  is modelled by the `subfile-exchange` reader, `readSubfile`: the manifest from
  the store, then the chunk file of each entry, the first failure returned.

  The newer startup is the older one with the local check added: it succeeds
  only where the older one does, and then holds the same subfiles, release
  and token; the older one succeeds exactly when the store holds every
  entry's manifest and chunk files (`initializeSubfileServerContext_ok_iff`).
  What the downloader makes of the older server is in `Exchange`: its
  `/operator` reply is no `Operator`, so every probe of it fails.
-/
import SubfileExchange.Server.Init

namespace SubfileExchange

namespace Cli

/-- `ServerState` of `subfile-cli`: the newer one without the operator key. -/
structure ServerState where
  subfiles : List (String × Subfile)
  release : PackageVersion
  freeQueryAuthToken : Option String
  deriving DecidableEq, Repr

/-- The newer server's state with the same subfiles, release and token, and the
    operator key `operatorPublicKey`. The handlers the two servers share read
    no operator key. -/
def ServerState.withOperator (st : ServerState) (operatorPublicKey : String) :
    SubfileExchange.ServerState :=
  ⟨operatorPublicKey, st.subfiles, st.release, st.freeQueryAuthToken⟩

/-! ## Handlers -/

/-- `status`, the newer server's code. -/
def status (st : ServerState) : Response := SubfileExchange.status (st.withOperator "")

/-- `version`, the newer server's code. -/
def version (st : ServerState) : Response := SubfileExchange.version (st.withOperator "")

/-- `file_service`, the newer server's code. -/
def fileService (fs : LocalFs) (path : String) (req : Request) (st : ServerState) :
    Except Failure Response :=
  SubfileExchange.fileService fs path req (st.withOperator "")

/-- `handle_request` of `subfile-cli`: `/operator` is a placeholder text. -/
def handleRequest (st : ServerState) (fs : LocalFs) (req : Request) : Except Failure Response :=
  if req.path = "/" then .ok ⟨200, [], .text "Ready to roll!"⟩
  else if req.path = "/operator" then .ok ⟨200, [], .text "TODO: Operator info"⟩
  else if req.path = "/status" then .ok (status st)
  else if req.path = "/health" then .ok health
  else if req.path = "/version" then .ok (version st)
  else if subfilesPrefix.data.isPrefixOf req.path.data then fileService fs req.path req st
  else .ok ⟨404, [], .text "Route not found"⟩

theorem handleRequest_operator_text (st : ServerState) (fs : LocalFs) (hs : Headers) :
    handleRequest st fs ⟨"/operator", hs⟩ = .ok ⟨200, [], .text "TODO: Operator info"⟩ := by
  simp [handleRequest]

/-- Off `/operator`, the two servers answer every request alike, whatever the
    newer one's operator key. -/
theorem handleRequest_eq_of_ne_operator (st : ServerState) (operatorPublicKey : String)
    (fs : LocalFs) {req : Request} (h : req.path ≠ "/operator") :
    handleRequest st fs req = SubfileExchange.handleRequest (st.withOperator operatorPublicKey) fs req := by
  simp only [handleRequest, SubfileExchange.handleRequest, h, if_false]
  rfl

/-! ## Startup -/

section
variable (store : IpfsStore)

/-- One round of the startup loop: the subfile is read and served, unchecked. -/
def addSubfile (st : ServerState) (entry : String × String) : Except Failure ServerState := do
  let subfile ← readSubfile store entry.1 entry.2
  pure { st with subfiles := insertSubfile st.subfiles subfile.ipfsHash subfile }

/-- `initialize_subfile_server_context` of `subfile-cli`, from the validated
    entries and the result of `package_version()`. -/
def initializeSubfileServerContext (release : Except Failure PackageVersion)
    (freeQueryAuthToken : Option String) (entries : List (String × String)) :
    Except Failure ServerState := do
  let release ← release
  entries.foldlM (addSubfile store) ⟨[], release, freeQueryAuthToken.map ("Bearer " ++ ·)⟩

/-- The store holds an entry's manifest and the chunk file of each of its files. -/
def EntryFetched (entry : String × String) : Prop :=
  ∃ m, store.manifests entry.1 = some m ∧ ∀ f ∈ m.files, ∃ c, store.chunkFiles f.hash = some c

end

section
variable {store : IpfsStore}

theorem addSubfile_ok_iff (st : ServerState) (entry : String × String) :
    (∃ st', addSubfile store st entry = .ok st') ↔ EntryFetched store entry := by
  simp only [addSubfile, Except.bind_eq_ok, readSubfile_eq_ok, pure, Except.pure, Except.ok.injEq]
  constructor
  · rintro ⟨_, _, ⟨m, cs, hm, hcs, rfl⟩, -⟩
    exact ⟨m, hm, fun f hf => (Forall₂.exists_of_mem_left hcs hf).imp fun _ h => h.2⟩
  · rintro ⟨m, hm, hcs⟩
    obtain ⟨cs, hcs, -⟩ := exists_forall₂_and (P := fun _ => True) |>.mpr fun f hf =>
      (hcs f hf).imp fun _ h => ⟨h, trivial⟩
    exact ⟨_, _, ⟨m, cs, hm, hcs, rfl⟩, rfl⟩

/-- A round of the newer loop is a round of the older one, whose local check passed. -/
theorem addSubfile_of_newer {digest : Bytes → String} {fs : LocalFs} {st : ServerState}
    {operatorPublicKey : String} {entry : String × String} {st'' : SubfileExchange.ServerState}
    (h : SubfileExchange.addSubfile digest store fs (st.withOperator operatorPublicKey) entry = .ok st'') :
    ∃ st', addSubfile store st entry = .ok st' ∧ st'' = st'.withOperator operatorPublicKey := by
  simp only [SubfileExchange.addSubfile, Except.bind_eq_ok, pure, Except.pure, Except.ok.injEq] at h
  obtain ⟨sf, hsf, -, -, rfl⟩ := h
  exact ⟨_, by simp only [addSubfile, hsf, Except.ok_bind]; rfl, rfl⟩

theorem foldlM_addSubfile_ok_iff : ∀ (es : List (String × String)) (st : ServerState),
    (∃ st', es.foldlM (addSubfile store) st = .ok st') ↔ ∀ e ∈ es, EntryFetched store e
  | [], _ => by simp [pure, Except.pure]
  | e :: es, st => by
    simp only [List.foldlM_cons, Except.bind_eq_ok, List.mem_cons, forall_eq_or_imp]
    constructor
    · rintro ⟨st'', st₁, h₁, h⟩
      exact ⟨(addSubfile_ok_iff st e).mp ⟨_, h₁⟩, (foldlM_addSubfile_ok_iff es st₁).mp ⟨_, h⟩⟩
    · rintro ⟨he, hes⟩
      obtain ⟨st₁, h₁⟩ := (addSubfile_ok_iff st e).mpr he
      obtain ⟨st'', h⟩ := (foldlM_addSubfile_ok_iff es st₁).mpr hes
      exact ⟨st'', st₁, h₁, h⟩

theorem foldlM_addSubfile_of_newer {digest : Bytes → String} {fs : LocalFs} {operatorPublicKey : String} :
    ∀ (es : List (String × String)) (st : ServerState) (st'' : SubfileExchange.ServerState),
      es.foldlM (SubfileExchange.addSubfile digest store fs) (st.withOperator operatorPublicKey) = .ok st'' →
      ∃ st', es.foldlM (addSubfile store) st = .ok st' ∧ st'' = st'.withOperator operatorPublicKey
  | [], _, _, h => ⟨_, rfl, (Except.ok.inj h).symm⟩
  | e :: es, st, st'', h => by
    obtain ⟨st₁'', h₁, h⟩ := Except.bind_eq_ok.mp h
    obtain ⟨st₁, h₁', rfl⟩ := addSubfile_of_newer h₁
    obtain ⟨st', h', rfl⟩ := foldlM_addSubfile_of_newer es st₁ st'' h
    exact ⟨st', by rw [List.foldlM_cons, h₁', Except.ok_bind, h'], rfl⟩

/-- The older startup succeeds exactly when the store holds every entry's
    manifest and chunk files: no local file is read. The newer startup succeeds
    only where the older one does, and then holds the same subfiles, release
    and token. -/
theorem initializeSubfileServerContext_ok_iff (release : PackageVersion)
    (freeQueryAuthToken : Option String) (entries : List (String × String)) :
    ((∃ st, initializeSubfileServerContext store (.ok release) freeQueryAuthToken entries = .ok st) ↔
      ∀ e ∈ entries, EntryFetched store e) ∧
    ∀ (digest : Bytes → String) (fs : LocalFs) (release' : Except Failure PackageVersion)
      (publicKey : Option String) (st : SubfileExchange.ServerState),
      SubfileExchange.initializeSubfileServerContext digest store fs release' publicKey
        freeQueryAuthToken entries = .ok st →
      ∃ st', initializeSubfileServerContext store release' freeQueryAuthToken entries = .ok st' ∧
        st = st'.withOperator st.operatorPublicKey := by
  refine ⟨foldlM_addSubfile_ok_iff entries _, fun digest fs release' publicKey st h => ?_⟩
  obtain ⟨rel, hrel, h⟩ := Except.bind_eq_ok.mp h
  cases publicKey with
  | none => cases h
  | some pk =>
    obtain ⟨st', h', rfl⟩ := foldlM_addSubfile_of_newer entries
      ⟨[], rel, freeQueryAuthToken.map ("Bearer " ++ ·)⟩ st h
    exact ⟨st', by rw [initializeSubfileServerContext, hrel, Except.ok_bind]; exact h', rfl⟩

end

end Cli

end SubfileExchange
