/-
  SubfileExchange.Server.Handler

  The server's request handling (`subfile_server/mod.rs`): `handle_request`
  routes on the path to `status`, `operator_info`, `health`, `version` and
  `file_service`. Every handler only reads `ServerState`, which is therefore
  the value `initialize_subfile_server_context` built, for the whole life of
  the server.

  `file_service` is split in two: `fileServiceTarget` is the code of the
  function up to the call into the range module, and says where the request
  goes (a response of its own, or `serve_file`/`serve_file_range` on a path).
  The range module (`range.rs`) is not among the sources; `parseRangeHeader`,
  `serveFile` and `serveFileRange` are modelled from the spec (§4.4.3).

  The path handed to the range module is the subfile's `local_path` pushed
  with the `file_name` header (`PathBuf::push`). Nothing checks the header: an
  absolute value replaces `local_path` and `..` components climb out of it.
  `fileServiceTarget_path_inside` is what holds: the path stays below
  `local_path` exactly when the value is relative with no `..` component.
-/
import SubfileExchange.Http
import SubfileExchange.Manifest
import SubfileExchange.Path

namespace SubfileExchange

/-- `PackageVersion`. -/
structure PackageVersion where
  version : String
  deriving DecidableEq, Repr

/-- `Subfile` on the server: a manifest bound to a local directory, with the
    chunk files of its entries. -/
structure Subfile where
  ipfsHash : String
  localPath : String
  manifest : SubfileManifest
  chunkFiles : List ChunkFile
  deriving DecidableEq, Repr

/-- `ServerState`; `subfiles` is the `HashMap` keyed by manifest hash, and the
    token is stored with its `Bearer ` prefix. -/
structure ServerState where
  operatorPublicKey : String
  subfiles : List (String × Subfile)
  release : PackageVersion
  freeQueryAuthToken : Option String
  deriving DecidableEq, Repr

/-- The server's files: the working directory and the contents of every
    resolved location. -/
structure LocalFs where
  cwd : List String
  files : List String → Option Bytes

/-- Read a file by path. -/
def LocalFs.read (fs : LocalFs) (path : String) : Option Bytes := fs.files (resolvePath fs.cwd path)

/-! ## Handlers -/

/-- `status`: the manifest hashes served, as a JSON array. -/
def status (st : ServerState) : Response := ⟨200, [], .strings (st.subfiles.map Prod.fst)⟩

/-- `operator_info`. -/
def operatorInfo (st : ServerState) : Response := ⟨200, [], .operator st.operatorPublicKey⟩

/-- `health`. -/
def health : Response := ⟨200, [], .health true⟩

/-- `version`. -/
def version (st : ServerState) : Response := ⟨200, [], .text st.release.version⟩

/-- A decimal numeral: one or more digits. -/
def parseDecimal (cs : List Char) : Option Nat :=
  if cs ≠ [] ∧ cs.all Char.isDigit then
    some (cs.foldl (fun n c => 10 * n + (c.toNat - '0'.toNat)) 0)
  else none

/-- Modelled from the spec: `parse_range_header` (`range.rs`) reads
    `bytes=<start>-<end>`. -/
def parseRangeHeader (r : String) : Except String (Nat × Nat) :=
  match (headerToStr? r).map String.data with
  | some ('b' :: 'y' :: 't' :: 'e' :: 's' :: '=' :: rest) =>
    match parseDecimal (rest.takeWhile (· ≠ '-')), parseDecimal ((rest.dropWhile (· ≠ '-')).drop 1) with
    | some s, some e => .ok (s, e)
    | _, _ => .error "invalid range"
  | _ => .error "invalid range"

/-- Modelled from the spec: `serve_file` (`range.rs`) sends the whole file. -/
def serveFile (fs : LocalFs) (path : String) : Except Failure Response :=
  match fs.read path with
  | some file => .ok ⟨200, [("content-length", toString file.length)], .bytes file⟩
  | none => .error (.error "No such file or directory")

/-- Modelled from the spec: `serve_file_range` (`range.rs`) sends the inclusive
    range `[start, end]` with status 206, or 416 outside the file. -/
def serveFileRange (fs : LocalFs) (path : String) (range : Nat × Nat) : Except Failure Response :=
  match fs.read path with
  | some file =>
    if range.1 ≤ range.2 ∧ range.2 < file.length then
      .ok ⟨206, [(contentRangeHeader, "bytes " ++ toString range.1 ++ "-" ++ toString range.2 ++
          "/" ++ toString file.length)], .bytes ((file.drop range.1).take (range.2 - range.1 + 1))⟩
    else .ok ⟨416, [], .text "Range Not Satisfiable"⟩
  | none => .error (.error "No such file or directory")

/-- The route prefix of `file_service`. -/
def subfilesPrefix : String := "/subfiles/id/"

/-- The header naming the file to serve. -/
def fileNameHeader : String := "file_name"

/-- Where `file_service` sends a request. -/
inductive FileTarget where
  | respond (r : Response)
  | serveFile (path : String)
  | serveFileRange (path : String) (range : Nat × Nat)
  deriving DecidableEq, Repr

/-- The path a target reads, if any. -/
def FileTarget.path? : FileTarget → Option String
  | .respond _ => none
  | .serveFile p => some p
  | .serveFileRange p _ => some p

/-- The authorization check of `file_service`. -/
def admits (st : ServerState) (req : Request) : Bool :=
  let authToken := (req.headers.get authorizationHeader).bind headerToStr?
  st.freeQueryAuthToken.isNone ||
    (authToken.isSome && st.freeQueryAuthToken.isSome && authToken == st.freeQueryAuthToken)

/-- `file_service`, up to the call into the range module. -/
def fileServiceTarget (path : String) (req : Request) (st : ServerState) :
    Except Failure FileTarget :=
  let id := trimStartMatches path subfilesPrefix
  if !admits st req then
    .ok (.respond ⟨401, [], .text "Paid service is not implemented, need free query authentication"⟩)
  else match st.subfiles.lookup id with
    | none => .ok (.respond ⟨404, [], .text "Subfile not found"⟩)
    | some sf =>
      match (req.headers.get fileNameHeader).bind headerToStr? with
      | some name =>
        let filePath := pushPath sf.localPath name
        match req.headers.get contentRangeHeader with
        | some r =>
          match parseRangeHeader r with
          | .ok range => .ok (.serveFileRange filePath range)
          | .error e => .error (.error ("Failed to parse range header: " ++ e))
        | none => .ok (.serveFile filePath)
      | none => .ok (.respond ⟨406, [], .text "Missing required chunk_file_hash header"⟩)

/-- `file_service`. -/
def fileService (fs : LocalFs) (path : String) (req : Request) (st : ServerState) :
    Except Failure Response := do
  match ← fileServiceTarget path req st with
  | .respond r => .ok r
  | .serveFile p => serveFile fs p
  | .serveFileRange p range => serveFileRange fs p range

/-- `handle_request`. -/
def handleRequest (st : ServerState) (fs : LocalFs) (req : Request) : Except Failure Response :=
  if req.path = "/" then .ok ⟨200, [], .text "Ready to roll!"⟩
  else if req.path = "/operator" then .ok (operatorInfo st)
  else if req.path = "/status" then .ok (status st)
  else if req.path = "/health" then .ok health
  else if req.path = "/version" then .ok (version st)
  else if subfilesPrefix.data.isPrefixOf req.path.data then fileService fs req.path req st
  else .ok ⟨404, [], .text "Route not found"⟩

/-! ## The path handed to the range module -/

/-- `fileServiceTarget` on the requests that reach the range module: they were
    admitted, named a served subfile and a readable `file_name`, and the path is
    the subfile's directory pushed with that name. -/
theorem fileServiceTarget_path {path : String} {req : Request} {st : ServerState}
    {t : FileTarget} {p : String} (ht : fileServiceTarget path req st = .ok t)
    (hp : t.path? = some p) :
    admits st req = true ∧ ∃ sf name,
      st.subfiles.lookup (trimStartMatches path subfilesPrefix) = some sf ∧
      (req.headers.get fileNameHeader).bind headerToStr? = some name ∧
      p = pushPath sf.localPath name := by
  simp only [fileServiceTarget] at ht
  cases hadm : admits st req <;> simp only [hadm, Bool.not_false, Bool.not_true] at ht
  · cases ht; simp [FileTarget.path?] at hp
  cases hsf : st.subfiles.lookup (trimStartMatches path subfilesPrefix) with
  | none => simp only [hsf] at ht; cases ht; simp [FileTarget.path?] at hp
  | some sf =>
    cases hname : (req.headers.get fileNameHeader).bind headerToStr? with
    | none => simp only [hsf, hname] at ht; cases ht; simp [FileTarget.path?] at hp
    | some name =>
      refine ⟨rfl, sf, name, rfl, rfl, ?_⟩
      cases hr : req.headers.get contentRangeHeader with
      | none => simp only [hsf, hname, hr] at ht; cases ht; simpa [FileTarget.path?, eq_comm] using hp
      | some r =>
        cases hpr : parseRangeHeader r <;> simp only [hsf, hname, hr, hpr] at ht <;> cases ht
        simpa [FileTarget.path?, eq_comm] using hp

/-- A request served from a path was admitted, and the path is the subfile's
    `local_path` pushed with the `file_name` header; it stays below `local_path`
    when the header is a relative path with no `..` component. -/
theorem fileServiceTarget_path_inside (cwd : List String) {path : String} {req : Request}
    {st : ServerState} {t : FileTarget} {p : String}
    (ht : fileServiceTarget path req st = .ok t) (hp : t.path? = some p) :
    admits st req = true ∧ ∃ sf name, st.subfiles.lookup (trimStartMatches path subfilesPrefix) = some sf ∧
      (req.headers.get fileNameHeader).bind headerToStr? = some name ∧
      p = pushPath sf.localPath name ∧
      (isAbsolute name = false → parentComponent ∉ splitSlash name.data →
        resolvePath cwd sf.localPath <+: resolvePath cwd p) := by
  obtain ⟨hadm, sf, name, hsf, hname, rfl⟩ := fileServiceTarget_path ht hp
  refine ⟨hadm, sf, name, hsf, hname, rfl, fun habs hdot => ?_⟩
  rw [resolvePath_pushPath cwd _ habs]
  exact isPrefix_foldl_stepComponent hdot _

/-- A server hosting manifest `m` from the directory `srv`, with no token. -/
def exampleServerState : ServerState :=
  ⟨"pk", [("m", ⟨"m", "srv", ⟨[], "", "", "", "", ⟨0, none⟩⟩, []⟩)], ⟨"0.1.0"⟩, none⟩

theorem fileServiceTarget_path_inside_example :
    fileServiceTarget "/subfiles/id/m" ⟨"/subfiles/id/m", [(fileNameHeader, "a.bin")]⟩
      exampleServerState = .ok (.serveFile "srv/a.bin") ∧
    admits exampleServerState ⟨"/subfiles/id/m", [(fileNameHeader, "a.bin")]⟩ = true ∧
    ∃ sf name, exampleServerState.subfiles.lookup
        (trimStartMatches "/subfiles/id/m" subfilesPrefix) = some sf ∧
      ((⟨"/subfiles/id/m", [(fileNameHeader, "a.bin")]⟩ : Request).headers.get
        fileNameHeader).bind headerToStr? = some name ∧
      "srv/a.bin" = pushPath sf.localPath name ∧
      (isAbsolute name = false → parentComponent ∉ splitSlash name.data →
        resolvePath ["home"] sf.localPath <+: resolvePath ["home"] "srv/a.bin") :=
  ⟨by decide, fileServiceTarget_path_inside ["home"] (t := .serveFile "srv/a.bin") (by decide) rfl⟩

/-- An admitted request whose `file_name` is `/etc/passwd` is served from
    `/etc/passwd`, outside the subfile's directory. -/
theorem fileServiceTarget_absolute_name_escapes :
    fileServiceTarget "/subfiles/id/m" ⟨"/subfiles/id/m", [(fileNameHeader, "/etc/passwd")]⟩
      exampleServerState = .ok (.serveFile "/etc/passwd") ∧
    ¬ resolvePath ["home"] "srv" <+: resolvePath ["home"] "/etc/passwd" := by
  decide

/-! ## What the server sends -/

/-- A target that answers by itself answers with a text. -/
theorem fileServiceTarget_respond {path : String} {req : Request} {st : ServerState} {r : Response}
    (h : fileServiceTarget path req st = .ok (.respond r)) : ∃ msg, r.body = .text msg := by
  simp only [fileServiceTarget] at h
  split_ifs at h
  · cases h
    exact ⟨_, rfl⟩
  repeat' split at h
  all_goals first | (cases h; exact ⟨_, rfl⟩) | cases h

/-- `handle_request` sends the bytes of a file only from `file_service`, to a
    request that passed the token check and named a served subfile and a
    `file_name`: the bytes are a contiguous part of the file at the subfile's
    `local_path` pushed with that name. -/
theorem handleRequest_bytes {st : ServerState} {fs : LocalFs} {req : Request} {r : Response}
    {data : Bytes} (h : handleRequest st fs req = .ok r) (hb : r.body = .bytes data) :
    admits st req = true ∧ ∃ sf name file,
      st.subfiles.lookup (trimStartMatches req.path subfilesPrefix) = some sf ∧
      (req.headers.get fileNameHeader).bind headerToStr? = some name ∧
      fs.read (pushPath sf.localPath name) = some file ∧ data <:+: file := by
  unfold handleRequest at h
  -- the routes other than `file_service` answer without bytes
  split_ifs at h <;> try (cases h; cases hb)
  obtain ⟨t, ht, h⟩ := Except.bind_eq_ok.mp h
  cases t with
  | respond r' =>
    cases h
    obtain ⟨msg, hmsg⟩ := fileServiceTarget_respond ht
    rw [hmsg] at hb
    cases hb
  | serveFile p =>
    obtain ⟨hadm, sf, name, hsf, hname, rfl⟩ := fileServiceTarget_path ht rfl
    simp only [serveFile] at h
    split at h
    · cases h
      cases hb
      exact ⟨hadm, sf, name, _, hsf, hname, ‹_›, List.infix_refl _⟩
    · cases h
  | serveFileRange p range =>
    obtain ⟨hadm, sf, name, hsf, hname, rfl⟩ := fileServiceTarget_path ht rfl
    simp only [serveFileRange] at h
    split at h
    · split_ifs at h <;> cases h <;> cases hb
      exact ⟨hadm, sf, name, _, hsf, hname, ‹_›,
        (List.take_prefix _ _).isInfix.trans (List.drop_suffix _ _).isInfix⟩
    · cases h

/-- The example server's directory, holding `a.bin` with the bytes `0, 1, 2, 3, 4`. -/
def exampleServerFs : LocalFs :=
  ⟨["home"], fun p => if p = ["home", "srv", "a.bin"] then some [0, 1, 2, 3, 4] else none⟩

/-- A request for bytes `1-3` of `a.bin` gets them, with status 206. -/
theorem handleRequest_bytes_example :
    handleRequest exampleServerState exampleServerFs
        ⟨"/subfiles/id/m", [(fileNameHeader, "a.bin"), (contentRangeHeader, "bytes=1-3")]⟩ =
      .ok ⟨206, [(contentRangeHeader, "bytes 1-3/5")], .bytes [1, 2, 3]⟩ ∧
    admits exampleServerState
        ⟨"/subfiles/id/m", [(fileNameHeader, "a.bin"), (contentRangeHeader, "bytes=1-3")]⟩ = true ∧
    ∃ sf name file,
      exampleServerState.subfiles.lookup (trimStartMatches "/subfiles/id/m" subfilesPrefix) = some sf ∧
      ((⟨"/subfiles/id/m", [(fileNameHeader, "a.bin"), (contentRangeHeader, "bytes=1-3")]⟩ :
        Request).headers.get fileNameHeader).bind headerToStr? = some name ∧
      exampleServerFs.read (pushPath sf.localPath name) = some file ∧ [1, 2, 3] <:+: file := by
  have h : handleRequest exampleServerState exampleServerFs
      ⟨"/subfiles/id/m", [(fileNameHeader, "a.bin"), (contentRangeHeader, "bytes=1-3")]⟩ =
        .ok ⟨206, [(contentRangeHeader, "bytes 1-3/5")], .bytes [1, 2, 3]⟩ := by
    decide
  exact ⟨h, handleRequest_bytes h rfl⟩

end SubfileExchange
