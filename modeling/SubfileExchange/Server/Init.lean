/-
  SubfileExchange.Server.Init

  Server startup (`initialize_subfile_server_context`, `read_subfile`): every
  `(manifest hash, local directory)` entry is read from the content store, and
  every chunk file of its manifest is verified chunk by chunk against the local
  directory before the subfile is served.

  `validate_subfile_entries` (`config.rs`), `package_version` and `public_key`
  (`util.rs`) are not among the sources: the model starts from the validated
  entries and takes the results of the two helpers as arguments. `read_chunk`
  (`file_reader.rs`) is modelled from the spec (§4.4.1): the inclusive range
  `[start, end]` of the file, failing when the file is missing or shorter.

  The verification runs the shared index loop (`ChunkLoop`). On chunk files
  where that loop is exact, startup succeeds exactly when every local file has
  at least `total_bytes` bytes and each of its chunks verifies
  (`initializeSubfileServerContext_spec`); the length itself is never compared,
  so a longer file whose first `total_bytes` bytes match is served. Handlers
  never change the state, and every hash `/status` lists belongs to a subfile
  that passed the check.
-/
import SubfileExchange.ChunkLoop
import SubfileExchange.Server.Handler

namespace SubfileExchange

/-- `read_subfile`. The source pushes each chunk file as
    `ChunkFileMeta { meta_info, chunk_file }`, `meta_info` being the entry it was
    fetched for; nothing modelled reads `meta_info`, which is left out. -/
def readSubfile (store : IpfsStore) (ipfs localPath : String) : Except Failure Subfile := do
  let manifest ← fetchSubfileFromIpfs store ipfs
  let chunkFiles ← manifest.files.mapM fun info => fetchChunkFileFromIpfs store info.hash
  pure ⟨ipfs, localPath, manifest, chunkFiles⟩

/-- Modelled from the spec: `read_chunk` (`file_reader.rs`) reads the inclusive
    range `[start, end]` of a file. -/
def readChunk (fs : LocalFs) (path : String) (range : Nat × Nat) : Except Failure Bytes :=
  match fs.read path with
  | some file =>
    if range.2 < file.length then .ok ((file.drop range.1).take (range.2 + 1 - range.1))
    else .error (.error "failed to fill whole buffer")
  | none => .error (.error "No such file or directory")

section
variable (digest : Bytes → String) (store : IpfsStore) (fs : LocalFs)

/-- One index of the verification loop. -/
def verifyIndex (filePath : String) (c : ChunkFile) (i : Nat) : Except Failure Unit := do
  let range ← chunkRange c i
  let chunkHash ← index c.chunkHashes i
  let chunkData ← readChunk fs filePath range
  if verifyChunk digest chunkData chunkHash then pure ()
  else .error (.panic "Local verification failed")

/-- The verification of one chunk file against the subfile's directory. -/
def verifyLocalFile (localPath : String) (c : ChunkFile) : Except Failure Unit := do
  let filePath := pushPath localPath c.fileName
  (List.range (← loopBound c)).forM (verifyIndex digest fs filePath c)

/-- `HashMap::insert`. -/
def insertSubfile (m : List (String × Subfile)) (k : String) (v : Subfile) :
    List (String × Subfile) :=
  (k, v) :: m.filter (fun e => e.1 ≠ k)

/-- One round of the startup loop. -/
def addSubfile (st : ServerState) (entry : String × String) : Except Failure ServerState := do
  let subfile ← readSubfile store entry.1 entry.2
  subfile.chunkFiles.forM (verifyLocalFile digest fs subfile.localPath)
  pure { st with subfiles := insertSubfile st.subfiles subfile.ipfsHash subfile }

/-- `initialize_subfile_server_context`, from the validated entries and the
    results of `package_version()` and `public_key(mnemonic)`. -/
def initializeSubfileServerContext (release : Except Failure PackageVersion)
    (publicKey : Option String) (freeQueryAuthToken : Option String)
    (entries : List (String × String)) : Except Failure ServerState := do
  let release ← release
  let operatorPublicKey ← match publicKey with
    | some k => .ok k
    | none => .error (.panic "Failed to initiate with operator wallet")
  entries.foldlM (addSubfile digest store fs)
    ⟨operatorPublicKey, [], release, freeQueryAuthToken.map ("Bearer " ++ ·)⟩

end

/-- What a successful startup checked of a local file: at least `total_bytes`
    bytes, and chunk `i` of its first `total_bytes` bytes verifies against
    `chunk_hashes[i]`. -/
def LocalFileMatches (digest : Bytes → String) (file : Bytes) (c : ChunkFile) : Prop :=
  c.totalBytes.toNat ≤ file.length ∧ ∀ i < c.numChunks, ∃ h, c.chunkHashes[i]? = some h ∧
    verifyChunk digest (chunkOf (file.take c.totalBytes.toNat) c.chunkSize.toNat i) h = true

/-! ## Verifying one local file -/

theorem take_sub_drop_eq_chunk (file : Bytes) (T C a : Nat) (ha : a < min (a + C) T) :
    (file.drop a).take (min (a + C) T - 1 + 1 - a) = ((file.take T).drop a).take C := by
  rw [List.drop_take, List.take_take]
  congr 1; omega

section
variable {digest : Bytes → String} {fs : LocalFs} {c : ChunkFile} (hc : c.LoopExact)
include hc

/-- `read_chunk` on the range of an index of the loop reads that chunk of the
    first `total_bytes` bytes of the file. -/
theorem readChunk_chunk {path : String} {i : Nat} {data : Bytes} (hi : i < c.numChunks) :
    readChunk fs path (i * c.chunkSize.toNat,
        min ((i + 1) * c.chunkSize.toNat) c.totalBytes.toNat - 1) = .ok data ↔
      ∃ file, fs.read path = some file ∧
        min ((i + 1) * c.chunkSize.toNat) c.totalBytes.toNat ≤ file.length ∧
        data = chunkOf (file.take c.totalBytes.toNat) c.chunkSize.toNat i := by
  have hlt := (chunkRange_of_lt hc.wellFormed hi hc.fits).2.1
  rw [Nat.succ_mul] at hlt ⊢
  cases hf : fs.read path with
  | none => simp [readChunk, hf]
  | some file =>
    simp only [readChunk, hf, Option.some.injEq, exists_eq_left']
    split_ifs with h
    · rw [Except.ok.injEq, chunkOf, take_sub_drop_eq_chunk _ _ _ _ hlt, eq_comm]
      exact ⟨fun h' => ⟨by omega, h'⟩, fun h' => h'.2⟩
    · simp only [reduceCtorEq, false_iff, not_and]
      intro h'; omega

theorem verifyIndex_eq_ok {i : Nat} (hi : i < c.numChunks) (p : String) :
    verifyIndex digest fs p c i = .ok () ↔
      ∃ file, fs.read p = some file ∧
        min ((i + 1) * c.chunkSize.toNat) c.totalBytes.toNat ≤ file.length ∧
        ∃ h, c.chunkHashes[i]? = some h ∧
          verifyChunk digest (chunkOf (file.take c.totalBytes.toNat) c.chunkSize.toNat i) h = true := by
  obtain ⟨hr, -, h, hidx⟩ := chunkRange_of_lt hc.wellFormed hi hc.fits
  rw [verifyIndex, hr, Except.ok_bind, hidx, Except.ok_bind, Except.bind_eq_ok]
  simp only [readChunk_chunk hc hi, index_eq_ok.mp hidx, Option.some.injEq, exists_eq_left']
  constructor
  · rintro ⟨_, ⟨file, hf, hlen, rfl⟩, hv⟩
    refine ⟨file, hf, hlen, ?_⟩
    split at hv
    · assumption
    · cases hv
  · rintro ⟨file, hf, hlen, hv⟩
    exact ⟨_, ⟨file, hf, hlen, rfl⟩, by simp [hv, pure, Except.pure]⟩

/-- The verification of a chunk file succeeds exactly when the local file matches it. -/
theorem verifyLocalFile_eq_ok (localPath : String) :
    verifyLocalFile digest fs localPath c = .ok () ↔
      ∃ file, fs.read (pushPath localPath c.fileName) = some file ∧
        LocalFileMatches digest file c := by
  have hC := hc.wellFormed.chunkSize_pos
  have hn := hc.numChunks_pos
  rw [verifyLocalFile, hc.loopBound_eq, Except.ok_bind, forM_eq_ok]
  simp only [List.mem_range]
  constructor
  · intro h
    obtain ⟨file, hf, hlen, -⟩ :=
      (verifyIndex_eq_ok hc (by omega) _).mp (h (c.numChunks - 1) (by omega))
    have hT : c.totalBytes.toNat ≤ c.numChunks * c.chunkSize.toNat :=
      Nat.le_of_not_lt fun h' => Nat.lt_irrefl _ ((mul_lt_iff_lt_numChunks hC).mp h')
    refine ⟨file, hf, ?_, fun i hi => ?_⟩
    · rw [Nat.sub_add_cancel hn] at hlen; omega
    · obtain ⟨file', hf', -, hv⟩ := (verifyIndex_eq_ok hc hi _).mp (h i hi)
      rw [hf] at hf'; cases hf'
      exact hv
  · rintro ⟨file, hf, hlen, hv⟩ i hi
    exact (verifyIndex_eq_ok hc hi _).mpr ⟨file, hf, le_trans (min_le_right _ _) hlen, hv i hi⟩

end

/-! ## Startup -/

/-- What startup requires of one entry: its manifest and the chunk file of each
    of its files are in the store, and each local file matches its chunk file. -/
def EntryVerified (digest : Bytes → String) (store : IpfsStore) (fs : LocalFs)
    (entry : String × String) : Prop :=
  ∃ m, store.manifests entry.1 = some m ∧ ∀ f ∈ m.files, ∃ c, store.chunkFiles f.hash = some c ∧
    ∃ file, fs.read (pushPath entry.2 c.fileName) = some file ∧ LocalFileMatches digest file c

/-- The chunk files the startup reads for an entry are ones where the loop is exact. -/
def EntryLoopExact (store : IpfsStore) (entry : String × String) : Prop :=
  ∀ m, store.manifests entry.1 = some m → ∀ f ∈ m.files, ∀ c,
    store.chunkFiles f.hash = some c → c.LoopExact

/-- A subfile that passed startup: its manifest and chunk files are the store's,
    and each local file matches its chunk file. -/
structure SubfileVerified (digest : Bytes → String) (store : IpfsStore) (fs : LocalFs)
    (sf : Subfile) : Prop where
  manifest_eq : store.manifests sf.ipfsHash = some sf.manifest
  chunkFiles_fetched :
    List.Forall₂ (fun f c => store.chunkFiles f.hash = some c) sf.manifest.files sf.chunkFiles
  localFiles_match : ∀ c ∈ sf.chunkFiles,
    ∃ file, fs.read (pushPath sf.localPath c.fileName) = some file ∧ LocalFileMatches digest file c

theorem lookup_filter_ne {m : List (String × Subfile)} {k k' : String} (h : k ≠ k') :
    (m.filter (fun e => e.1 ≠ k')).lookup k = m.lookup k := by
  induction m with
  | nil => rfl
  | cons e m ih =>
    obtain ⟨a, b⟩ := e
    by_cases ha : a = k'
    · subst ha
      have hka : (k == a) = false := by simpa using h
      rw [List.filter_cons_of_neg (by simp), ih]
      simp [List.lookup, hka]
    · rw [List.filter_cons_of_pos (by simpa using ha)]
      cases hka : k == a <;> simp only [List.lookup, hka, ih]

@[simp] theorem lookup_insertSubfile (m : List (String × Subfile)) (k k' : String) (v : Subfile) :
    (insertSubfile m k' v).lookup k = if k = k' then some v else m.lookup k := by
  by_cases h : k = k'
  · simp [insertSubfile, List.lookup, h]
  · have hk : (k == k') = false := by simpa using h
    simp only [insertSubfile, List.lookup, hk, h, if_false]
    exact lookup_filter_ne h

section
variable {digest : Bytes → String} {store : IpfsStore} {fs : LocalFs}

theorem readSubfile_eq_ok {ipfs localPath : String} {sf : Subfile} :
    readSubfile store ipfs localPath = .ok sf ↔ ∃ m cs, store.manifests ipfs = some m ∧
      List.Forall₂ (fun f c => store.chunkFiles f.hash = some c) m.files cs ∧
      sf = ⟨ipfs, localPath, m, cs⟩ := by
  simp only [readSubfile, Except.bind_eq_ok, mapM_eq_ok, fetchSubfileFromIpfs_eq_ok,
    fetchChunkFileFromIpfs_eq_ok, pure, Except.pure, Except.ok.injEq, eq_comm (a := sf),
    exists_and_left]

/-- One round of the startup loop succeeds exactly when the subfile it reads
    verifies, and then adds that subfile under its manifest hash. -/
theorem addSubfile_eq_ok {st st' : ServerState} {entry : String × String}
    (hex : EntryLoopExact store entry) :
    addSubfile digest store fs st entry = .ok st' ↔ ∃ m cs,
      SubfileVerified digest store fs ⟨entry.1, entry.2, m, cs⟩ ∧
      st' = { st with subfiles := insertSubfile st.subfiles entry.1 ⟨entry.1, entry.2, m, cs⟩ } := by
  simp only [addSubfile, Except.bind_eq_ok, readSubfile_eq_ok, pure, Except.pure, Except.ok.injEq]
  constructor
  · rintro ⟨_, ⟨m, cs, hm, hcs, rfl⟩, ⟨⟩, hv, rfl⟩
    refine ⟨m, cs, ⟨hm, hcs, fun c hc => ?_⟩, rfl⟩
    obtain ⟨f, hf, hfc⟩ := Forall₂.exists_of_mem_right hcs hc
    exact (verifyLocalFile_eq_ok (hex m hm f hf c hfc) _).mp (forM_eq_ok.mp hv c hc)
  · rintro ⟨m, cs, ⟨hm, hcs, hv⟩, rfl⟩
    refine ⟨_, ⟨m, cs, hm, hcs, rfl⟩, (), forM_eq_ok.mpr fun c hc => ?_, rfl⟩
    obtain ⟨f, hf, hfc⟩ := Forall₂.exists_of_mem_right hcs hc
    exact (verifyLocalFile_eq_ok (hex m hm f hf c hfc) _).mpr (hv c hc)

theorem addSubfile_ok_iff (st : ServerState) {entry : String × String}
    (hex : EntryLoopExact store entry) :
    (∃ st', addSubfile digest store fs st entry = .ok st') ↔ EntryVerified digest store fs entry := by
  constructor
  · rintro ⟨_, h⟩
    obtain ⟨m, cs, ⟨hm, hcs, hv⟩, -⟩ := (addSubfile_eq_ok hex).mp h
    exact ⟨m, hm, exists_forall₂_and.mp ⟨cs, hcs, hv⟩⟩
  · rintro ⟨m, hm, hv⟩
    obtain ⟨cs, hcs, hv⟩ := exists_forall₂_and.mpr hv
    exact ⟨_, (addSubfile_eq_ok hex).mpr ⟨m, cs, ⟨hm, hcs, hv⟩, rfl⟩⟩

/-- The subfiles a state serves, each under its own hash, from an entry of
    `entries`, having passed startup. -/
def Served (digest : Bytes → String) (store : IpfsStore) (fs : LocalFs)
    (entries : List (String × String)) (st : ServerState) : Prop :=
  ∀ k sf, st.subfiles.lookup k = some sf →
    sf.ipfsHash = k ∧ (k, sf.localPath) ∈ entries ∧ SubfileVerified digest store fs sf

/-- A round of the startup loop keeps `Served`. -/
theorem addSubfile_served {entries : List (String × String)} {st st' : ServerState}
    {entry : String × String} (hex : EntryLoopExact store entry) (he : entry ∈ entries)
    (hs : Served digest store fs entries st) (h : addSubfile digest store fs st entry = .ok st') :
    Served digest store fs entries st' := by
  obtain ⟨m, cs, hv, rfl⟩ := (addSubfile_eq_ok hex).mp h
  intro k sf hk
  rw [lookup_insertSubfile] at hk
  split_ifs at hk with hke
  · cases hk; subst hke
    exact ⟨rfl, he, hv⟩
  · exact hs k sf hk

/-- The startup loop over `es` succeeds exactly when every entry verifies, and it
    keeps `Served`. -/
theorem foldlM_addSubfile {entries : List (String × String)} (es : List (String × String))
    (hex : ∀ e ∈ es, EntryLoopExact store e) (hsub : es ⊆ entries) (st : ServerState) :
    ((∃ st', es.foldlM (addSubfile digest store fs) st = .ok st') ↔
      ∀ e ∈ es, EntryVerified digest store fs e) ∧
    ∀ st', es.foldlM (addSubfile digest store fs) st = .ok st' →
      Served digest store fs entries st → Served digest store fs entries st' := by
  induction es generalizing st with
  | nil => simp [pure, Except.pure]
  | cons e es ih =>
    simp only [List.mem_cons, forall_eq_or_imp] at hex
    have hsub' := List.cons_subset.mp hsub
    simp only [List.foldlM_cons, Except.bind_eq_ok, List.mem_cons, forall_eq_or_imp]
    constructor
    · constructor
      · rintro ⟨st'', st₁, h₁, h⟩
        exact ⟨(addSubfile_ok_iff _ hex.1).mp ⟨_, h₁⟩, ((ih hex.2 hsub'.2 st₁).1.mp ⟨_, h⟩)⟩
      · rintro ⟨he, hes⟩
        obtain ⟨st₁, h₁⟩ := (addSubfile_ok_iff st hex.1).mpr he
        obtain ⟨st'', h⟩ := (ih hex.2 hsub'.2 st₁).1.mpr hes
        exact ⟨st'', st₁, h₁, h⟩
    · rintro st'' ⟨st₁, h₁, h⟩ hs
      exact (ih hex.2 hsub'.2 st₁).2 _ h (addSubfile_served hex.1 hsub'.1 hs h₁)

end

/-! ## Startup as a whole -/

/-- `/status` answers with the keys of the state. -/
theorem handleRequest_status (st : ServerState) (fs : LocalFs) (hs : Headers) :
    handleRequest st fs ⟨"/status", hs⟩ = .ok (status st) := by
  simp [handleRequest]

section
variable {digest : Bytes → String} {store : IpfsStore} {fs : LocalFs}

/-- Startup, on entries whose chunk files the loop covers exactly, succeeds exactly
    when every entry verifies. Handlers only read the state it builds, and every
    hash `/status` lists there is the key of a subfile with that hash, from an
    entry, that passed the check. -/
theorem initializeSubfileServerContext_spec {release : PackageVersion} {publicKey : String}
    {freeQueryAuthToken : Option String} {entries : List (String × String)}
    (hex : ∀ e ∈ entries, EntryLoopExact store e) :
    ((∃ st, initializeSubfileServerContext digest store fs (.ok release) (some publicKey)
        freeQueryAuthToken entries = .ok st) ↔ ∀ e ∈ entries, EntryVerified digest store fs e) ∧
    ∀ st, initializeSubfileServerContext digest store fs (.ok release) (some publicKey)
        freeQueryAuthToken entries = .ok st → ∀ (fs' : LocalFs) (hs : Headers),
      ∃ ks, handleRequest st fs' ⟨"/status", hs⟩ = .ok ⟨200, [], .strings ks⟩ ∧
        ∀ k ∈ ks, ∃ sf, st.subfiles.lookup k = some sf ∧ sf.ipfsHash = k ∧
          (k, sf.localPath) ∈ entries ∧ SubfileVerified digest store fs sf := by
  refine ⟨(foldlM_addSubfile entries hex (List.Subset.refl _) _).1,
    fun st hst fs' hs => ⟨_, handleRequest_status st fs' hs, fun k hk => ?_⟩⟩
  obtain ⟨p, hp, hpk⟩ := List.mem_map.mp hk
  obtain ⟨sf, hsf⟩ := Option.isSome_iff_exists.mp
    (List.lookup_isSome_iff.mpr ⟨p, hp, beq_iff_eq.mpr hpk.symm⟩)
  exact ⟨sf, hsf, (foldlM_addSubfile entries hex (List.Subset.refl _) _).2 st hst
    (fun _ _ h => by cases h) k sf hsf⟩

end

/-- A server directory `srv` under `/home`, holding `a.bin`. -/
def exampleFs (file : Bytes) : LocalFs :=
  ⟨["home"], fun p => if p = ["home", "srv", "a.bin"] then some file else none⟩

theorem exampleStore_loopExact :
    ∀ e ∈ [("m", "srv")], EntryLoopExact (exampleStore "a.bin" exampleChunkFile) e := by
  simp only [List.mem_singleton, forall_eq, EntryLoopExact, exampleStore, if_true]
  rintro m ⟨⟩ f hf c hc
  simp only [List.mem_singleton, exampleManifest] at hf
  subst hf
  cases hc
  exact ⟨⟨by decide, by decide⟩, by decide, by decide⟩

theorem initializeSubfileServerContext_spec_example :
    (∀ e ∈ [("m", "srv")], EntryLoopExact (exampleStore "a.bin" exampleChunkFile) e) ∧
    ((∃ st, initializeSubfileServerContext exampleDigest (exampleStore "a.bin" exampleChunkFile)
        (exampleFs [0, 1, 2, 3, 4]) (.ok ⟨"0.1.0"⟩) (some "pk") none [("m", "srv")] = .ok st) ↔
      ∀ e ∈ [("m", "srv")], EntryVerified exampleDigest (exampleStore "a.bin" exampleChunkFile)
        (exampleFs [0, 1, 2, 3, 4]) e) ∧
    ∀ st, initializeSubfileServerContext exampleDigest (exampleStore "a.bin" exampleChunkFile)
        (exampleFs [0, 1, 2, 3, 4]) (.ok ⟨"0.1.0"⟩) (some "pk") none [("m", "srv")] = .ok st →
      ∀ (fs' : LocalFs) (hs : Headers),
      ∃ ks, handleRequest st fs' ⟨"/status", hs⟩ = .ok ⟨200, [], .strings ks⟩ ∧
        ∀ k ∈ ks, ∃ sf, st.subfiles.lookup k = some sf ∧ sf.ipfsHash = k ∧
          (k, sf.localPath) ∈ [("m", "srv")] ∧
          SubfileVerified exampleDigest (exampleStore "a.bin" exampleChunkFile) (exampleFs [0, 1, 2, 3, 4]) sf :=
  ⟨exampleStore_loopExact, initializeSubfileServerContext_spec exampleStore_loopExact⟩

/-- A local file one byte longer than `total_bytes` passes startup; and when the
    chunk size divides `total_bytes`, startup panics on a file that matches. -/
theorem initializeSubfileServerContext_longer_file_accepted :
    (initializeSubfileServerContext exampleDigest (exampleStore "a.bin" exampleChunkFile)
        (exampleFs [0, 1, 2, 3, 4, 5]) (.ok ⟨"0.1.0"⟩) (some "pk") none [("m", "srv")]).toBool = true ∧
    [0, 1, 2, 3, 4, 5].length ≠ exampleChunkFile.totalBytes.toNat ∧
    initializeSubfileServerContext exampleDigest (exampleStore "a.bin" ⟨"a.bin", 8, 4, ["abcd", "efgh"]⟩)
        (exampleFs [0, 1, 2, 3, 4, 5, 6, 7]) (.ok ⟨"0.1.0"⟩) (some "pk") none [("m", "srv")] =
      .error (.panic "index out of bounds") := by
  decide

/-! ## The subfiles startup serves -/

section
variable {digest : Bytes → String} {store : IpfsStore} {fs : LocalFs}

/-- `insertSubfile` keeps the keys distinct. -/
theorem nodup_insertSubfile {m : List (String × Subfile)} (h : (m.map Prod.fst).Nodup) (k : String)
    (v : Subfile) : ((insertSubfile m k v).map Prod.fst).Nodup := by
  refine List.nodup_cons.mpr ⟨fun hk => ?_, h.sublist ((List.filter_sublist m).map _)⟩
  obtain ⟨e, he, hek⟩ := List.mem_map.mp hk
  exact absurd hek (by simpa using (List.mem_filter.mp he).2)

/-- A round of the startup loop puts, under the entry's hash, a subfile served
    from the entry's directory. -/
theorem addSubfile_subfiles {st st' : ServerState} {entry : String × String}
    (h : addSubfile digest store fs st entry = .ok st') :
    ∃ sf : Subfile, sf.localPath = entry.2 ∧ st'.subfiles = insertSubfile st.subfiles entry.1 sf := by
  simp only [addSubfile, Except.bind_eq_ok, readSubfile_eq_ok, pure, Except.pure, Except.ok.injEq] at h
  obtain ⟨_, ⟨m, cs, -, -, rfl⟩, -, -, rfl⟩ := h
  exact ⟨_, rfl, rfl⟩

/-- Over the startup loop the keys stay distinct, and a key is served from the
    directory of the last entry naming it, or as before when none does. -/
theorem foldlM_addSubfile_lookup : ∀ (es : List (String × String)) (st st' : ServerState),
    es.foldlM (addSubfile digest store fs) st = .ok st' → (st.subfiles.map Prod.fst).Nodup →
    (st'.subfiles.map Prod.fst).Nodup ∧ ∀ k, (st'.subfiles.lookup k).map Subfile.localPath =
      (es.reverse.lookup k).or ((st.subfiles.lookup k).map Subfile.localPath)
  | [], _, _, h, hnd => by cases h; exact ⟨hnd, fun _ => rfl⟩
  | ⟨a, d⟩ :: es, st, st', h, hnd => by
    obtain ⟨st₁, h₁, h⟩ := Except.bind_eq_ok.mp h
    obtain ⟨sf, hpath, hsub⟩ := addSubfile_subfiles h₁
    obtain ⟨hnd', hlk⟩ := foldlM_addSubfile_lookup es st₁ st' h (hsub ▸ nodup_insertSubfile hnd a sf)
    refine ⟨hnd', fun k => ?_⟩
    rw [hlk k, List.reverse_cons, List.lookup_append, Option.or_assoc, hsub, lookup_insertSubfile]
    by_cases hk : k = a
    · subst hk; simp [hpath]
    · have hka : (k == a) = false := by simpa using hk
      simp [hk, hka, List.lookup]

/-- After startup, `/status` lists the manifest hash of every entry once and
    nothing else, and a hash that several entries name is served from the
    directory of the last of them: the earlier directories were checked but
    are not served. -/
theorem initializeSubfileServerContext_subfiles {release : Except Failure PackageVersion}
    {publicKey freeQueryAuthToken : Option String} {entries : List (String × String)} {st : ServerState}
    (h : initializeSubfileServerContext digest store fs release publicKey freeQueryAuthToken entries = .ok st) :
    (st.subfiles.map Prod.fst).Nodup ∧
      ∀ k, (st.subfiles.lookup k).map Subfile.localPath = entries.reverse.lookup k := by
  obtain ⟨rel, -, h⟩ := Except.bind_eq_ok.mp h
  cases publicKey with
  | none => cases h
  | some pk =>
    obtain ⟨hnd, hlk⟩ := foldlM_addSubfile_lookup entries _ st h List.nodup_nil
    exact ⟨hnd, fun k => (hlk k).trans Option.or_none⟩

/-- Two entries of one manifest: it is listed once. -/
theorem initializeSubfileServerContext_subfiles_example :
    ∃ st, initializeSubfileServerContext exampleDigest (exampleStore "a.bin" exampleChunkFile)
        (exampleFs [0, 1, 2, 3, 4]) (.ok ⟨"0.1.0"⟩) (some "pk") none [("m", "srv"), ("m", "srv")] = .ok st ∧
      st.subfiles.length = 1 ∧ (st.subfiles.map Prod.fst).Nodup ∧
      ∀ k, (st.subfiles.lookup k).map Subfile.localPath = [("m", "srv"), ("m", "srv")].reverse.lookup k := by
  have h : initializeSubfileServerContext exampleDigest (exampleStore "a.bin" exampleChunkFile)
      (exampleFs [0, 1, 2, 3, 4]) (.ok ⟨"0.1.0"⟩) (some "pk") none [("m", "srv"), ("m", "srv")] =
        .ok ⟨"pk", [("m", ⟨"m", "srv", exampleManifest "a.bin", [exampleChunkFile]⟩)], ⟨"0.1.0"⟩, none⟩ := by
    decide
  exact ⟨_, h, rfl, initializeSubfileServerContext_subfiles h⟩

end

end SubfileExchange
