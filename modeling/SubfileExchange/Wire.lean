/-
  SubfileExchange.Wire

  The downloader against a server that startup built. The downloader reaches a
  server at its base url; a `GET` of `base ++ p` arrives there with path `p`
  (`requestTo`), and what the handler returns comes back as the response, or
  as a transport error when the handler failed.

  The availability probe of a server that hosts the manifest returns the
  operator's key and leaves the blocklist alone. A range request reaches
  `file_service` for the manifest, is admitted when the server has no token or
  the downloader sends the server's, finds the subfile, and its range text
  `bytes=<start>-<end>` reads back as the request's range
  (`parseRangeHeader_rangeText`, from the decimal round trip). The local file of
  the chunk file, which startup checked, holds the chunk asked for.

  The exchange fails all the same. The downloader names the file in a header
  `file_hash`, by the chunk file's hash, while `file_service` reads it from
  `file_name`: every range request the downloader sends is answered 406, and no
  pass of its retry loop writes (`initializeSubfileServerContext_rejects_downloader`).
  Without a token the downloader panics before it sends anything
  (`chunkRequest_of_none`, `auth_token.expect`), whatever the server's setting.
-/
import SubfileExchange.Server.Init
import SubfileExchange.Client.Downloader

namespace SubfileExchange

/-! ## Decimal numerals -/

theorem digitChar_lt_ten : ∀ k < 10, (Nat.digitChar k).isDigit = true ∧
    (Nat.digitChar k).toNat - '0'.toNat = k := by
  decide

/-- `toDigitsCore` puts in front of `ds` the decimal digits of `n`, which read back
    as `n`, given fuel above `n`. -/
theorem toDigitsCore_ten : ∀ (fuel n : Nat) (ds : List Char), n < fuel →
    ∃ l, Nat.toDigitsCore 10 fuel n ds = l ++ ds ∧ l ≠ [] ∧ (∀ c ∈ l, c.isDigit = true) ∧
      l.foldl (fun n c => 10 * n + (c.toNat - '0'.toNat)) 0 = n
  | 0, _, _, h => absurd h (Nat.not_lt_zero _)
  | fuel + 1, n, ds, h => by
    obtain ⟨hdig, hval⟩ := digitChar_lt_ten (n % 10) (Nat.mod_lt n (by decide))
    simp only [Nat.toDigitsCore]
    split_ifs with h0
    · refine ⟨[Nat.digitChar (n % 10)], rfl, List.cons_ne_nil _ _, by simpa using hdig, ?_⟩
      simp only [List.foldl_cons, List.foldl_nil, hval]
      omega
    · obtain ⟨l, hl, hne, hdigs, hfold⟩ :=
        toDigitsCore_ten fuel (n / 10) (Nat.digitChar (n % 10) :: ds) (by omega)
      refine ⟨l ++ [Nat.digitChar (n % 10)], by simp [hl], by simp, ?_, ?_⟩
      · simpa [or_imp, forall_and] using ⟨hdigs, hdig⟩
      · simp only [List.foldl_append, hfold, List.foldl_cons, List.foldl_nil, hval]
        omega

/-- `n.to_string()`: digits, at least one, that read back as `n`. -/
theorem toString_data (n : Nat) : (toString n).data ≠ [] ∧ (∀ c ∈ (toString n).data, c.isDigit = true) ∧
    (toString n).data.foldl (fun n c => 10 * n + (c.toNat - '0'.toNat)) 0 = n := by
  obtain ⟨l, hl, hne, hdig, hfold⟩ := toDigitsCore_ten (n + 1) n [] (Nat.lt_succ_self n)
  rw [List.append_nil] at hl
  rw [show (toString n).data = Nat.toDigitsCore 10 (n + 1) n [] from rfl, hl]
  exact ⟨hne, hdig, hfold⟩

theorem parseDecimal_toString (n : Nat) : parseDecimal (toString n).data = some n := by
  obtain ⟨hne, hdig, hfold⟩ := toString_data n
  rw [parseDecimal, if_pos ⟨hne, List.all_eq_true.mpr hdig⟩, hfold]

theorem toNat_of_isDigit {c : Char} (h : c.isDigit = true) : 48 ≤ c.toNat ∧ c.toNat ≤ 57 := by
  simp only [Char.isDigit, Bool.and_eq_true, decide_eq_true_eq] at h
  exact ⟨h.1, h.2⟩

/-! ## The range header -/

/-- The range text the downloader sends reads back, on the server, as its range. -/
theorem parseRangeHeader_rangeText (s e : Nat) : parseRangeHeader (rangeText s e) = .ok (s, e) := by
  obtain ⟨-, hs, -⟩ := toString_data s
  obtain ⟨-, he, -⟩ := toString_data e
  have hdash : ∀ c ∈ (toString s).data, decide (c ≠ '-') = true := fun c hc => by
    have := toNat_of_isDigit (hs c hc)
    simp only [ne_eq, decide_eq_true_eq]
    rintro rfl
    simp at this
  have hvis : ∀ c ∈ (rangeText s e).data, c = '\t' ∨ (32 ≤ c.toNat ∧ c.toNat < 127) := by
    intro c hc
    simp only [rangeText, String.data_append, List.mem_append] at hc
    rcases hc with ((hc | hc) | hc) | hc
    · revert c; decide
    · have := toNat_of_isDigit (hs c hc); omega
    · revert c; decide
    · have := toNat_of_isDigit (he c hc); omega
  have hstr : headerToStr? (rangeText s e) = some (rangeText s e) := by
    rw [headerToStr?, if_pos (List.all_eq_true.mpr fun c hc => by simpa using hvis c hc)]
  have hdata : (rangeText s e).data =
      'b' :: 'y' :: 't' :: 'e' :: 's' :: '=' :: ((toString s).data ++ '-' :: (toString e).data) := by
    simp [rangeText]
  rw [parseRangeHeader, hstr, Option.map_some', hdata]
  -- the `bytes=` arm, by unfolding: `simp` on the literal patterns is far slower
  show (match parseDecimal (((toString s).data ++ '-' :: (toString e).data).takeWhile (· ≠ '-')),
      parseDecimal ((((toString s).data ++ '-' :: (toString e).data).dropWhile (· ≠ '-')).drop 1) with
    | some s, some e => Except.ok (s, e)
    | _, _ => Except.error "invalid range" : Except String (Nat × Nat)) = _
  rw [List.takeWhile_append_of_pos hdash, List.dropWhile_append_of_pos hdash]
  simp [parseDecimal_toString]

/-! ## The transport -/

/-- The request a server reached at `base` receives for a `GET` of `target`: the
    path is what follows `base`. -/
def requestTo (base target : String) (headers : Headers) : Option Request :=
  if base.data.isPrefixOf target.data then some ⟨⟨target.data.drop base.data.length⟩, headers⟩
  else none

theorem requestTo_append (base p : String) (headers : Headers) :
    requestTo base (base ++ p) headers = some ⟨p, headers⟩ := by
  simp [requestTo, List.isPrefixOf_iff_prefix]

/-- What a probe receives when the handler returned `result`: the response, or a
    transport error when the handler failed and the connection was dropped. -/
def ProbeReply.ofResult : Except Failure Response → ProbeReply
  | .ok r => r.toProbeReply
  | .error _ => .transportError

/-- A response as a range request receives it; the downloader reads the body only
    with a 2xx status and a `Content-Range` header, which only byte bodies come with. -/
def Response.toRangeReply (r : Response) : RangeReply :=
  .response r.status (r.headers.get contentRangeHeader).isSome
    (match r.body with
      | .bytes b => b
      | _ => [])

/-- What a range request receives when the handler returned `result`. -/
def RangeReply.ofResult : Except Failure Response → RangeReply
  | .ok r => r.toRangeReply
  | .error _ => .transportError

/-! ## The availability probe -/

theorem handleRequest_operator (st : ServerState) (fs : LocalFs) (hs : Headers) :
    handleRequest st fs ⟨"/operator", hs⟩ = .ok (operatorInfo st) := by
  simp [handleRequest]

section
variable {st : ServerState} (fs : LocalFs)

/-- The probe of a server that hosts `h` returns the operator's key with the url. -/
theorem checkEndpointAvailability_hosted {h : String} (hh : h ∈ st.subfiles.map Prod.fst)
    (url : String) :
    checkEndpointAvailability h url (.ofResult (handleRequest st fs ⟨"/status", []⟩))
      (.ofResult (handleRequest st fs ⟨"/operator", []⟩)) = .ok (st.operatorPublicKey, url) := by
  rw [handleRequest_status, handleRequest_operator]
  exact checkEndpointAvailability_eq_ok.mpr ⟨200, _, 200, _, rfl, rfl, hh, rfl, rfl, rfl⟩

/-- So the probe step keeps the endpoint and leaves the blocklist alone. -/
theorem probeStep_hosted {env : DownloaderEnv} (hh : env.ipfsHash ∈ st.subfiles.map Prod.fst)
    {s : State} {m : SubfileManifest} {k : Nat} {f : FileMetaInfo} {c : ChunkFile}
    {b pending : List String} {results : List IndexerEndpoint} {j : Nat} {url : String}
    (hm : s.main = .file m k (.probing f c b pending results)) (hj : pending[j]? = some url) :
    probeStep env s j (.ofResult (handleRequest st fs ⟨"/status", []⟩))
        (.ofResult (handleRequest st fs ⟨"/operator", []⟩)) =
      some { s with
        main := .file m k (.probing f c b (pending.eraseIdx j) (results ++ [(st.operatorPublicKey, url)]))
        log := s.log ++ [.probed k url (.ofResult (handleRequest st fs ⟨"/status", []⟩))
          (.ofResult (handleRequest st fs ⟨"/operator", []⟩)) (.ok (st.operatorPublicKey, url))] } := by
  simp only [probeStep, hm, hj, checkEndpointAvailability_hosted fs hh]

end

/-! ## A range request -/

section
variable (st : ServerState) (fs : LocalFs)

/-- `handle_request` sends every path under `/subfiles/id/` to `file_service`. -/
theorem handleRequest_subfiles (h : String) (hs : Headers) :
    handleRequest st fs ⟨subfilesPrefix ++ h, hs⟩ =
      fileService fs (subfilesPrefix ++ h) ⟨subfilesPrefix ++ h, hs⟩ st := by
  have hne : ∀ p : String, p.length < subfilesPrefix.length → subfilesPrefix ++ h ≠ p :=
    fun p hp heq => by have := congrArg String.length heq; rw [String.length_append] at this; omega
  have hpre : subfilesPrefix.data.isPrefixOf (subfilesPrefix ++ h).data = true := by
    simp [List.isPrefixOf_iff_prefix]
  simp only [handleRequest, if_neg (hne "/" (by decide)), if_neg (hne "/operator" (by decide)),
    if_neg (hne "/status" (by decide)), if_neg (hne "/health" (by decide)),
    if_neg (hne "/version" (by decide)), hpre, if_true]

/-- `file_service` reads the manifest hash back from the path, unless the hash
    itself starts with the route's prefix. -/
theorem trimStartMatches_subfiles {h : String} (hh : subfilesPrefix.data.isPrefixOf h.data = false) :
    trimStartMatches (subfilesPrefix ++ h) subfilesPrefix = h :=
  trimStartMatches_append (by decide) hh

theorem chunkHeaders_range (r : DownloadRangeRequest) (t : String) :
    (chunkHeaders r t).get contentRangeHeader = some (rangeText r.start r.end_) := rfl

/-- `file_service` admits the headers `request_chunk` sends with `t` exactly when the
    server has no token, or has `t` and `t` is a valid header value. -/
theorem admits_chunkHeaders (p : String) (r : DownloadRangeRequest) (t : String) :
    admits st ⟨p, chunkHeaders r t⟩ = true ↔
      st.freeQueryAuthToken = none ∨ st.freeQueryAuthToken = some t ∧ headerToStr? t = some t := by
  have hget : (chunkHeaders r t).get authorizationHeader = some t := rfl
  have hstr : headerToStr? t = some t ∨ headerToStr? t = none := by
    unfold headerToStr?; split <;> simp
  simp only [admits, hget, Option.some_bind]
  rcases hstr with hs | hs <;> cases st.freeQueryAuthToken <;> simp [hs]
  exact eq_comm

/-- The headers `request_chunk` sends name no file under `file_name`: an admitted
    range request for a hosted manifest is answered 406. -/
theorem fileServiceTarget_chunkRequest {r : DownloadRangeRequest} {t h : String} {sf : Subfile}
    (hadm : admits st ⟨subfilesPrefix ++ h, chunkHeaders r t⟩ = true)
    (hh : subfilesPrefix.data.isPrefixOf h.data = false) (hsf : st.subfiles.lookup h = some sf) :
    fileServiceTarget (subfilesPrefix ++ h) ⟨subfilesPrefix ++ h, chunkHeaders r t⟩ st =
      .ok (.respond ⟨406, [], .text "Missing required chunk_file_hash header"⟩) := by
  have hname : (chunkHeaders r t).get fileNameHeader = none := rfl
  simp only [fileServiceTarget, hadm, Bool.not_true, trimStartMatches_subfiles hh, hsf, hname,
    Option.none_bind]
  rfl

end

/-! ## The local files of a hosted manifest -/

section
variable {fs : LocalFs}

/-- The range of chunk `i` of a file is that chunk of its first `total_bytes` bytes. -/
theorem chunkRange_drop_take {c : ChunkFile} (hc : c.LoopExact) (file : Bytes) {i : Nat} (hi : i < c.numChunks) {s e : Nat}
    (hr : chunkRange c i = .ok (s, e)) :
    (file.drop s).take (e - s + 1) = chunkOf (file.take c.totalBytes.toNat) c.chunkSize.toNat i := by
  obtain ⟨hr', hlt, -⟩ := chunkRange_of_lt hc.wellFormed hi hc.fits
  rw [hr] at hr'
  obtain ⟨rfl, rfl⟩ := Prod.mk.inj (Except.ok.inj hr')
  rw [Nat.succ_mul] at hlt
  rw [chunkOf, ← take_sub_drop_eq_chunk _ _ _ _ hlt]
  congr 2
  rw [Nat.succ_mul]
  omega

variable {digest : Bytes → String} {store : IpfsStore} {release : PackageVersion}
  {publicKey : String} {tok : Option String} {entries : List (String × String)} {st : ServerState}

/-- A chunk file of a manifest that startup hosts is one where the loop is exact,
    and its local file passed the check. -/
theorem initializeSubfileServerContext_localFile (hex : ∀ e ∈ entries, EntryLoopExact store e)
    (hinit : initializeSubfileServerContext digest store fs (.ok release) (some publicKey) tok entries =
      .ok st)
    {h : String} {sf : Subfile} (hsf : st.subfiles.lookup h = some sf) {f : FileMetaInfo}
    (hf : f ∈ sf.manifest.files) {c : ChunkFile} (hc : store.chunkFiles f.hash = some c) :
    c.LoopExact ∧ ∃ file, fs.read (pushPath sf.localPath c.fileName) = some file ∧
      LocalFileMatches digest file c := by
  obtain ⟨rfl, hmem, hv⟩ := (foldlM_addSubfile entries hex (List.Subset.refl _) _).2 st hinit
    (fun _ _ h => by cases h) h sf hsf
  obtain ⟨c', hc', hfc'⟩ := Forall₂.exists_of_mem_left hv.chunkFiles_fetched hf
  rw [hc] at hfc'
  cases hfc'
  exact ⟨hex _ hmem _ hv.manifest_eq f hf c hc, hv.localFiles_match c hc'⟩

end

/-! ## Startup and the downloader -/

/-- What `file_service` makes of a request before it reads the name of the file:
    the request is admitted, its path names subfile `sf`, and its range header
    reads as `range`. -/
structure DecodesRange (st : ServerState) (req : Request) (sf : Subfile) (range : Nat × Nat) : Prop where
  admitted : admits st req = true
  subfile : st.subfiles.lookup (trimStartMatches req.path subfilesPrefix) = some sf
  range : (req.headers.get contentRangeHeader).map parseRangeHeader = some (.ok range)

/-- A server that startup built, hosting the manifest `env.ipfsHash`, and a
    downloader of that manifest at the server's base url `base` whose token the
    server admits. The probe returns the operator's key with `base` and leaves the
    blocklist alone. Every range request the downloader builds for an index of a
    chunk file of the manifest goes to `base`, where `handle_request` hands it to
    `file_service`, which admits it, finds the subfile and reads the range back;
    the chunk file's local file holds that chunk, and it verifies. But the request
    names its file in the header `file_hash`, by the chunk file's hash, and
    `file_service` reads `file_name`: the answer is 406, `request_chunk` returns
    `Err`, and every pass of the retry loop retries or gives up without writing. -/
theorem initializeSubfileServerContext_rejects_downloader {digest : Bytes → String}
    {store : IpfsStore} {fs : LocalFs} {release : PackageVersion} {publicKey : String}
    {tok : Option String} {entries : List (String × String)} {st : ServerState}
    (hex : ∀ e ∈ entries, EntryLoopExact store e)
    (hinit : initializeSubfileServerContext digest store fs (.ok release) (some publicKey) tok entries =
      .ok st)
    {env : DownloaderEnv} (hdigest : env.digest = digest) (hstore : env.store = store)
    {sf : Subfile} (hsf : st.subfiles.lookup env.ipfsHash = some sf)
    (hh : subfilesPrefix.data.isPrefixOf env.ipfsHash.data = false)
    {t : String} (htok : env.freeQueryAuthToken = some t)
    (hadm : st.freeQueryAuthToken = none ∨ st.freeQueryAuthToken = some t ∧ headerToStr? t = some t)
    (base : String) :
    checkEndpointAvailability env.ipfsHash base (.ofResult (handleRequest st fs ⟨"/status", []⟩))
        (.ofResult (handleRequest st fs ⟨"/operator", []⟩)) = .ok (st.operatorPublicKey, base) ∧
    (∀ (s : State) m k f c b pending results j, s.main = .file m k (.probing f c b pending results) →
      pending[j]? = some base → ∃ s', probeStep env s j (.ofResult (handleRequest st fs ⟨"/status", []⟩))
        (.ofResult (handleRequest st fs ⟨"/operator", []⟩)) = some s' ∧ s'.blocklist = s.blocklist) ∧
    ∀ (f : FileMetaInfo) (c : ChunkFile) (i : Nat) (eps : List IndexerEndpoint) (draw : Nat)
      (r : DownloadRangeRequest), f ∈ sf.manifest.files →
      fetchChunkFileFromIpfs env.store f.hash = .ok c → i < c.numChunks → (∀ e ∈ eps, e.2 = base) →
      downloadRangeRequest env.ipfsHash env.chunkMaxRetry env.freeQueryAuthToken f c eps draw i = .ok r →
      ∃ target headers req, chunkRequest r = .ok (target, headers) ∧
        requestTo base target headers = some req ∧ req.path = subfilesPrefix ++ env.ipfsHash ∧
        DecodesRange st req sf (r.start, r.end_) ∧
        (∃ file, fs.read (pushPath sf.localPath c.fileName) = some file ∧
          verifyChunk env.digest ((file.drop r.start).take (r.end_ - r.start + 1)) r.chunkHash = true) ∧
        req.headers.get fileHashHeader = some f.hash ∧ req.headers.get fileNameHeader = none ∧
        handleRequest st fs req = .ok ⟨406, [], .text "Missing required chunk_file_hash header"⟩ ∧
        rangeReplyResult (.ofResult (handleRequest st fs req)) =
          .error "Range request failed: Server does not support range requests or the request failed: 406" ∧
        ∀ attempts io, attempt env.digest r attempts (rangeReplyResult (.ofResult (handleRequest st fs req)))
          io = if attempts + 1 ≥ r.maxRetry then .exhausted else .retry := by
  have hhost : env.ipfsHash ∈ st.subfiles.map Prod.fst := by
    obtain ⟨l₁, l₂, hl, -⟩ := List.lookup_eq_some_iff.mp hsf
    simp [hl]
  refine ⟨checkEndpointAvailability_hosted fs hhost base,
    fun s m k f c b pending results j hm hj => ⟨_, probeStep_hosted fs hhost hm hj, rfl⟩, ?_⟩
  intro f c i eps draw r hf hc hi heps hr
  obtain ⟨pk, url, hch, hrange, hidx, hq, hauth, hfh, -⟩ := downloadRangeRequest_eq_ok.mp hr
  obtain rfl : url = base := heps _ (chooseEndpoint_mem hch)
  rw [hstore, fetchChunkFileFromIpfs_eq_ok] at hc
  obtain ⟨hcx, file, hfile, -, hmatch⟩ := initializeSubfileServerContext_localFile hex hinit hsf hf hc
  obtain ⟨h', hh', hv⟩ := hmatch i hi
  rw [index_eq_ok.mp hidx, Option.some.injEq] at hh'
  subst hh'
  have hadm' := (admits_chunkHeaders st (subfilesPrefix ++ env.ipfsHash) r t).mpr hadm
  -- the one defect: `file_service` finds no `file_name` header
  have h406 : handleRequest st fs ⟨subfilesPrefix ++ env.ipfsHash, chunkHeaders r t⟩ =
      .ok ⟨406, [], .text "Missing required chunk_file_hash header"⟩ := by
    rw [handleRequest_subfiles, fileService, fileServiceTarget_chunkRequest st hadm' hh hsf]
    rfl
  refine ⟨_, chunkHeaders r t, ⟨subfilesPrefix ++ env.ipfsHash, chunkHeaders r t⟩,
    chunkRequest_eq_ok.mpr ⟨t, hauth.trans htok, rfl⟩, ?_, rfl,
    ⟨hadm', by rw [trimStartMatches_subfiles hh]; exact hsf,
      by rw [chunkHeaders_range, Option.map_some', parseRangeHeader_rangeText]⟩,
    ⟨file, hfile, by rw [chunkRange_drop_take hcx file hi hrange, hdigest]; exact hv⟩,
    congrArg some hfh, rfl, h406, by rw [h406]; rfl, fun attempts io => by rw [h406]; rfl⟩
  rw [hq, String.append_assoc]
  exact requestTo_append _ _ _

/-- The example server: manifest `m` from `srv`, with the token `t`. -/
def exampleServer : ServerState :=
  ⟨"pk", [("m", ⟨"m", "srv", exampleManifest "a.bin", [exampleChunkFile]⟩)], ⟨"0.1.0"⟩, some "Bearer t"⟩

/-- The setup of the end-to-end test: a server started without a token hosts `m`,
    and the downloader sends the token `Bearer free-token`. Its request for chunk 0
    of `a.bin` is answered 406. -/
theorem initializeSubfileServerContext_rejects_downloader_example :
    initializeSubfileServerContext exampleDigest (exampleStore "a.bin" exampleChunkFile)
      (exampleFs [0, 1, 2, 3, 4]) (.ok ⟨"0.1.0"⟩) (some "pk") none [("m", "srv")] =
        .ok { exampleServer with freeQueryAuthToken := none } ∧
    ∃ target headers req,
      chunkRequest ⟨"http://a/subfiles/id/m", some "Bearer free-token", "c", 0, 3, "abcd", 1⟩ =
        .ok (target, headers) ∧
      requestTo "http://a" target headers = some req ∧
      handleRequest { exampleServer with freeQueryAuthToken := none } (exampleFs [0, 1, 2, 3, 4]) req =
        .ok ⟨406, [], .text "Missing required chunk_file_hash header"⟩ := by
  have hinit : initializeSubfileServerContext exampleDigest (exampleStore "a.bin" exampleChunkFile)
      (exampleFs [0, 1, 2, 3, 4]) (.ok ⟨"0.1.0"⟩) (some "pk") none [("m", "srv")] =
        .ok { exampleServer with freeQueryAuthToken := none } := by decide
  obtain ⟨-, -, hreq⟩ := initializeSubfileServerContext_rejects_downloader exampleStore_loopExact hinit
    (show ({ exampleEnv ["http://a"] with freeQueryAuthToken := some "Bearer free-token" }).digest =
      exampleDigest from rfl) rfl
    (show [("m", (⟨"m", "srv", exampleManifest "a.bin", [exampleChunkFile]⟩ : Subfile))].lookup "m" =
      some ⟨"m", "srv", exampleManifest "a.bin", [exampleChunkFile]⟩ from rfl) (by decide) rfl (.inl rfl)
    "http://a"
  obtain ⟨target, headers, req, hc, ht, -, -, -, -, -, h406, -⟩ :=
    hreq ⟨"a.bin", "c"⟩ exampleChunkFile 0 [("pk", "http://a")] 0
      ⟨"http://a/subfiles/id/m", some "Bearer free-token", "c", 0, 3, "abcd", 1⟩
      (by decide) (by decide) (by decide) (by simp) (by decide)
  exact ⟨hinit, target, headers, req, hc, ht, h406⟩

end SubfileExchange
