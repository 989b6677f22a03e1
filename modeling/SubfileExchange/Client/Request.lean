/-
  SubfileExchange.Client.Request

  What `download_chunk_file` asks for (`subfile_client/mod.rs`): the output
  file it creates for a manifest entry, and the range request that
  `download_range_request` builds for each index of the loop.

  The output file is `output_dir + "/" + name`, a string concatenation: a name
  from the manifest with a `..` component resolves outside `output_dir`, and
  an empty `output_dir` puts the file under the root (`outputPath_inside` is
  what holds). `download_range_request` draws an endpoint with `choose`, which
  the model takes as an index into the list; the range and the digest come
  from the shared index loop (`ChunkLoop`). Over the whole loop
  (`rangeRequests`), the requests are exactly the spec's chunks when the loop
  is exact (`rangeRequests_of_loopExact`), and when `chunk_size` divides
  `total_bytes` the loop panics whatever the endpoints (`rangeRequests_panics_of_dvd`).
-/
import SubfileExchange.ChunkLoop
import SubfileExchange.Path

namespace SubfileExchange

/-- `IndexerEndpoint`: an operator's public key and its url. -/
abbrev IndexerEndpoint := String × String

/-! ## The output file -/

/-- The path `download_chunk_file` creates for an entry. -/
def outputPath (outputDir name : String) : String := outputDir ++ "/" ++ name

/-- The output file stays below a nonempty `output_dir` when the name has no `..`
    component. -/
theorem outputPath_inside (cwd : List String) {outputDir name : String} (hdir : outputDir ≠ "")
    (hname : parentComponent ∉ splitSlash name.data) :
    resolvePath cwd outputDir <+: resolvePath cwd (outputPath outputDir name) := by
  rw [outputPath, resolvePath_append_slash cwd name hdir]
  exact isPrefix_foldl_stepComponent hname _

/-! ## `download_range_request` -/

/-- `DownloadRangeRequest`, without its file handle: the task that carries it
    writes to the output file of its `download_chunk_file` call. -/
structure DownloadRangeRequest where
  queryEndpoint : String
  authToken : Option String
  fileHash : String
  start : Nat
  end_ : Nat
  chunkHash : String
  maxRetry : Nat
  deriving DecidableEq, Repr

/-- `query_endpoints.choose(&mut rng)`, the draw being `choice`. -/
def chooseEndpoint (queryEndpoints : List IndexerEndpoint) (choice : Nat) : Option IndexerEndpoint :=
  queryEndpoints[choice % queryEndpoints.length]?

theorem chooseEndpoint_mem {eps : List IndexerEndpoint} {choice : Nat} {e : IndexerEndpoint}
    (h : chooseEndpoint eps choice = some e) : e ∈ eps :=
  List.getElem?_mem h

theorem chooseEndpoint_isSome {eps : List IndexerEndpoint} (h : eps ≠ []) (choice : Nat) :
    ∃ e, chooseEndpoint eps choice = some e :=
  ⟨_, List.getElem?_eq_getElem (Nat.mod_lt _ (List.length_pos.mpr h))⟩

/-- `download_range_request` for index `i` of chunk file `c` (entry `meta`). -/
def downloadRangeRequest (ipfsHash : String) (chunkMaxRetry : Nat)
    (freeQueryAuthToken : Option String) (meta : FileMetaInfo) (c : ChunkFile)
    (queryEndpoints : List IndexerEndpoint) (choice i : Nat) :
    Except Failure DownloadRangeRequest := do
  let url ← match chooseEndpoint queryEndpoints choice with
    | some (_, url) => .ok url
    | none => .error (.error "Could not choose an operator to query, data unavailable")
  let queryEndpoint := url ++ "/subfiles/id/" ++ ipfsHash
  let (start, end_) ← chunkRange c i
  let chunkHash ← index c.chunkHashes i
  pure ⟨queryEndpoint, freeQueryAuthToken, meta.hash, start, end_, chunkHash, chunkMaxRetry⟩

section
variable {ipfsHash : String} {chunkMaxRetry : Nat} {token : Option String} {meta : FileMetaInfo}
  {c : ChunkFile} {eps : List IndexerEndpoint} {choice i : Nat}

/-- A request is built from a drawn endpoint, the index's range and its digest. -/
theorem downloadRangeRequest_eq_ok {r : DownloadRangeRequest} :
    downloadRangeRequest ipfsHash chunkMaxRetry token meta c eps choice i = .ok r ↔
      ∃ pk url, chooseEndpoint eps choice = some (pk, url) ∧
        chunkRange c i = .ok (r.start, r.end_) ∧ index c.chunkHashes i = .ok r.chunkHash ∧
        r.queryEndpoint = url ++ "/subfiles/id/" ++ ipfsHash ∧ r.authToken = token ∧
        r.fileHash = meta.hash ∧ r.maxRetry = chunkMaxRetry := by
  unfold downloadRangeRequest
  cases hch : chooseEndpoint eps choice with
  | none => simp
  | some e =>
    obtain ⟨pk, url⟩ := e
    cases r
    simp only [Except.ok_bind, Except.bind_eq_ok, Prod.exists, pure, Except.pure,
      Except.ok.injEq, DownloadRangeRequest.mk.injEq, Option.some.injEq, Prod.mk.injEq]
    constructor
    · rintro ⟨s, e, hr, h, hh, rfl, rfl, rfl, rfl, rfl, rfl, rfl⟩
      exact ⟨pk, url, ⟨rfl, rfl⟩, hr, hh, rfl, rfl, rfl, rfl⟩
    · rintro ⟨_, _, ⟨rfl, rfl⟩, hr, hh, rfl, rfl, rfl, rfl⟩
      exact ⟨_, _, hr, _, hh, rfl, rfl, rfl, rfl, rfl, rfl, rfl⟩

/-- With no endpoint to draw, the request is an error and nothing else is computed. -/
theorem downloadRangeRequest_nil :
    downloadRangeRequest ipfsHash chunkMaxRetry token meta c [] choice i =
      .error (.error "Could not choose an operator to query, data unavailable") := rfl

/-- With an endpoint to draw, building a request never returns an error: it
    succeeds or panics. -/
theorem downloadRangeRequest_okOrPanic (hne : eps ≠ []) :
    OkOrPanic (downloadRangeRequest ipfsHash chunkMaxRetry token meta c eps choice i) := by
  obtain ⟨⟨pk, url⟩, he⟩ := chooseEndpoint_isSome hne choice
  unfold downloadRangeRequest
  simp only [he, Except.ok_bind]
  exact (chunkRange_okOrPanic c i).bind fun ⟨_, _⟩ => (index_okOrPanic _ _).bind fun _ => .pure _

/-- When the loop is exact and there is an endpoint to draw, the request of every
    chunk index is built. -/
theorem downloadRangeRequest_of_loopExact (hc : c.LoopExact) (hne : eps ≠ []) (hi : i < c.numChunks) :
    ∃ r, downloadRangeRequest ipfsHash chunkMaxRetry token meta c eps choice i = .ok r := by
  obtain ⟨⟨pk, url⟩, he⟩ := chooseEndpoint_isSome hne choice
  obtain ⟨hr, -, h, hh⟩ := chunkRange_of_lt hc.wellFormed hi hc.fits
  exact ⟨⟨_, token, meta.hash, _, _, h, chunkMaxRetry⟩,
    downloadRangeRequest_eq_ok.mpr ⟨pk, url, he, hr, hh, rfl, rfl, rfl, rfl⟩⟩

end

/-! ## The index loop -/

/-- The requests of `download_chunk_file`'s index loop, `choices i` being the
    draw for index `i`; the loop stops at the first failure. -/
def rangeRequests (ipfsHash : String) (chunkMaxRetry : Nat) (freeQueryAuthToken : Option String)
    (meta : FileMetaInfo) (c : ChunkFile) (queryEndpoints : List IndexerEndpoint)
    (choices : Nat → Nat) : Except Failure (List DownloadRangeRequest) := do
  let n ← loopBound c
  (List.range n).mapM fun i =>
    downloadRangeRequest ipfsHash chunkMaxRetry freeQueryAuthToken meta c queryEndpoints (choices i) i

section
variable {ipfsHash : String} {chunkMaxRetry : Nat} {token : Option String} {meta : FileMetaInfo}
  {c : ChunkFile} {eps : List IndexerEndpoint} {choices : Nat → Nat}

/-- When the loop is exact, it builds one request per chunk, and the inclusive
    range of request `i` holds exactly the bytes `q < T` with `q / C = i`: the
    ranges are disjoint and cover the file. -/
theorem rangeRequests_of_loopExact (hc : c.LoopExact) (hne : eps ≠ []) :
    ∃ rs, rangeRequests ipfsHash chunkMaxRetry token meta c eps choices = .ok rs ∧
      rs.length = c.numChunks ∧ ∀ i r, rs[i]? = some r →
        r.start = i * c.chunkSize.toNat ∧ r.start ≤ r.end_ ∧
        c.chunkHashes[i]? = some r.chunkHash ∧
        ∀ q, (r.start ≤ q ∧ q ≤ r.end_) ↔ (q / c.chunkSize.toNat = i ∧ q < c.totalBytes.toNat) := by
  have hreq : ∀ i ∈ List.range c.numChunks, ∃ r,
      downloadRangeRequest ipfsHash chunkMaxRetry token meta c eps (choices i) i = .ok r ∧ True :=
    fun i hi => (downloadRangeRequest_of_loopExact hc hne (List.mem_range.mp hi)).imp
      fun _ h => ⟨h, trivial⟩
  obtain ⟨rs, hrs, -⟩ := exists_forall₂_and.mpr hreq
  refine ⟨rs, ?_, by rw [← hrs.length_eq, List.length_range], fun i r hr => ?_⟩
  · rw [rangeRequests, hc.loopBound_eq, Except.ok_bind]
    exact mapM_eq_ok.mpr hrs
  · obtain ⟨hi', rfl⟩ := List.getElem?_eq_some_iff.mp hr
    have hi : i < c.numChunks := by rwa [← hrs.length_eq, List.length_range] at hi'
    have h2 := hrs.get (by rwa [List.length_range]) hi'
    simp only [List.get_eq_getElem, List.getElem_range] at h2
    obtain ⟨pk, url, -, hcr, hh, -⟩ := downloadRangeRequest_eq_ok.mp h2
    obtain ⟨hr', hlt, -⟩ := chunkRange_of_lt hc.wellFormed hi hc.fits
    rw [hr'] at hcr
    obtain ⟨hs, he⟩ := Prod.mk.inj (Except.ok.inj hcr)
    refine ⟨hs.symm, by omega, index_eq_ok.mp hh, fun q => ?_⟩
    rw [← hs, ← he, ← mem_chunkSpan_iff hc.wellFormed.chunkSize_pos]
    omega

/-- When `chunk_size` divides `total_bytes`, the loop panics, whatever the endpoints:
    at index `T / C` it reads `chunk_hashes` out of bounds, unless an offset
    overflowed or underflowed first. -/
theorem rangeRequests_panics_of_dvd (hwf : c.WellFormed)
    (hmod : c.totalBytes.toNat % c.chunkSize.toNat = 0) (hne : eps ≠ []) :
    ∃ msg, rangeRequests ipfsHash chunkMaxRetry token meta c eps choices = .error (.panic msg) := by
  unfold rangeRequests
  rcases loopBound_okOrPanic c with ⟨n, hb⟩ | ⟨msg, hb⟩
  · obtain ⟨-, -, rfl⟩ := loopBound_eq_ok.mp hb
    rw [hb, Except.ok_bind]
    refine mapM_panics (fun i _ => downloadRangeRequest_okOrPanic hne) ⟨_, List.mem_range.mpr
      (Nat.lt_succ_self _), fun r hr => ?_⟩
    obtain ⟨-, -, -, -, hh, -⟩ := downloadRangeRequest_eq_ok.mp hr
    rw [index_loop_last_out_of_bounds hwf hmod] at hh
    cases hh
  · exact ⟨msg, by rw [hb]; rfl⟩

end

/-- Eight bytes in chunks of four: the loop runs to index 2 and panics there. -/
theorem rangeRequests_eight_by_four_panics :
    rangeRequests "m" 3 (some "Bearer t") ⟨"a.bin", "c"⟩ ⟨"a.bin", 8, 4, ["h0", "h1"]⟩
      [("pk", "http://u")] (fun _ => 0) = .error (.panic "index out of bounds") := by
  decide

end SubfileExchange
