/-
  SubfileExchange.Pipeline

  A subfile published and then served, the way the tests of `publisher.rs`
  and `tests/file_transfer.rs` chain the two: `publish` chunks the configured
  files of `read_dir` and adds their chunk files and the manifest to the IPFS
  node; a server started on the returned hash with `read_dir` as its local
  directory fetches them back and checks the files against them
  (`initialize_subfile_server_context`).

  `ChunkFile::new` is not among the sources. `ChunkFileNewReads` is what the
  chain needs of it: every chunk file it builds is that of a published file
  (`PublishedFile`, spec §4.1) whose bytes the server reads at
  `read_dir/<file_name>`. With a store that serves what the node accepted
  (`IpfsStore.Holds`), startup then succeeds exactly when no published file's
  length is a multiple of its chunk size, and serves the published manifest
  from `read_dir` (`publish_startup`). On a multiple, the startup loop's extra
  index reads past `chunk_hashes` (`ChunkLoop`) and the server panics, on
  files that match their chunk files byte for byte.
-/
import SubfileExchange.Publisher
import SubfileExchange.Server.Init

namespace SubfileExchange

/-- What the chain needs of `ChunkFile::new(read_dir, name, chunk_size)`: the
    chunk file it builds, whatever adds went out before, is that of a
    published file whose bytes `fs` holds at `read_dir/<file_name>`. -/
def ChunkFileNewReads (digest : Bytes → String) (fs : LocalFs) (env : PublisherEnv)
    (args : PublisherArgs) : Prop :=
  ∀ node name c, env.chunkFileNew node args.readDir name args.chunkSize = .ok c →
    ∃ p : PublishedFile digest, p.chunkFile = c ∧ fs.read (pushPath args.readDir c.fileName) = some p.bytes

/-- The chunk file `c` that `publish` added for the entry `f`: stored under the
    entry's hash, and built by `ChunkFile::new` for the entry's name once a
    prefix of the adds in `node` went out. -/
def AddedChunkFile (store : IpfsStore) (env : PublisherEnv) (args : PublisherArgs)
    (node : List AddCall) (f : FileMetaInfo) (c : ChunkFile) : Prop :=
  store.chunkFiles f.hash = some c ∧
    ∃ node₁, node₁ <+: node ∧ env.chunkFileNew node₁ args.readDir f.name args.chunkSize = .ok c

/-! ## The server's check on a published file -/

/-- A published file passes the local check against its own chunk file. -/
theorem PublishedFile.localFileMatches {digest : Bytes → String} (p : PublishedFile digest) :
    LocalFileMatches digest p.bytes p.chunkFile := by
  refine ⟨p.totalBytes_eq.le, fun i hi => ⟨_, p.chunkHashes_eq i hi, ?_⟩⟩
  rw [p.totalBytes_eq, List.take_length, verifyChunk_iff]

/-- When the chunk size divides `total_bytes`, the check of a well-formed chunk
    file fails whatever the local file: the loop's last index reads past
    `chunk_hashes`. -/
theorem verifyLocalFile_ne_ok_of_mod_eq_zero {digest : Bytes → String} {fs : LocalFs} {c : ChunkFile}
    (hwf : c.WellFormed) (hmod : c.totalBytes.toNat % c.chunkSize.toNat = 0) (localPath : String) :
    verifyLocalFile digest fs localPath c ≠ .ok () := by
  intro h
  obtain ⟨n, hn, h⟩ := Except.bind_eq_ok.mp h
  have hlast := forM_eq_ok.mp h (c.totalBytes.toNat / c.chunkSize.toNat)
    (List.mem_range.mpr (by rw [(loopBound_eq_ok.mp hn).2.2]; exact Nat.lt_succ_self _))
  obtain ⟨_, -, hlast⟩ := Except.bind_eq_ok.mp hlast
  obtain ⟨_, hidx, -⟩ := Except.bind_eq_ok.mp hlast
  rw [index_loop_last_out_of_bounds hwf hmod] at hidx
  cases hidx

section
variable {digest : Bytes → String} {store : IpfsStore} {fs : LocalFs}

/-- A round of the startup loop succeeds exactly when the store holds the
    entry's manifest and chunk files and each chunk file passes its check. -/
theorem addSubfile_eq_ok_iff_verify {st st' : ServerState} {entry : String × String} :
    addSubfile digest store fs st entry = .ok st' ↔ ∃ m cs, store.manifests entry.1 = some m ∧
      List.Forall₂ (fun f c => store.chunkFiles f.hash = some c) m.files cs ∧
      (∀ c ∈ cs, verifyLocalFile digest fs entry.2 c = .ok ()) ∧
      st' = { st with subfiles := insertSubfile st.subfiles entry.1 ⟨entry.1, entry.2, m, cs⟩ } := by
  simp only [addSubfile, Except.bind_eq_ok, readSubfile_eq_ok, pure, Except.pure, Except.ok.injEq]
  constructor
  · rintro ⟨_, ⟨m, cs, hm, hcs, rfl⟩, ⟨⟩, hv, rfl⟩
    exact ⟨m, cs, hm, hcs, forM_eq_ok.mp hv, rfl⟩
  · rintro ⟨m, cs, hm, hcs, hv, rfl⟩
    exact ⟨_, ⟨m, cs, hm, hcs, rfl⟩, (), forM_eq_ok.mpr hv, rfl⟩

/-- Startup on one entry is one round of its loop. -/
theorem initializeSubfileServerContext_single {release : PackageVersion} {publicKey : String}
    {freeQueryAuthToken : Option String} {entry : String × String} {st : ServerState} :
    initializeSubfileServerContext digest store fs (.ok release) (some publicKey) freeQueryAuthToken
        [entry] = .ok st ↔
      addSubfile digest store fs ⟨publicKey, [], release, freeQueryAuthToken.map ("Bearer " ++ ·)⟩ entry =
        .ok st := by
  simp only [initializeSubfileServerContext, List.foldlM_cons, List.foldlM_nil, Except.ok_bind, bind_pure]

end

/-! ## Publishing, then serving -/

/-- An entry of the manifest of `names` paired with `hashes` is a name and hash
    at one position. -/
theorem mem_zipWith_fileMetaInfo {names hashes : List String} {f : FileMetaInfo}
    (hf : f ∈ List.zipWith FileMetaInfo.mk names hashes) :
    ∃ k : Nat, names[k]? = some f.name ∧ hashes[k]? = some f.hash := by
  obtain ⟨k, hk⟩ := List.mem_iff_getElem?.mp hf
  rw [List.getElem?_zipWith'] at hk
  obtain ⟨g, hg, hk⟩ := Option.bind_eq_some.mp hk
  obtain ⟨a, ha, rfl⟩ := Option.map_eq_some'.mp hg
  obtain ⟨b, hb, rfl⟩ := Option.map_eq_some'.mp hk
  exact ⟨k, ha, hb⟩

section
variable {env : PublisherEnv} {args : PublisherArgs} {store : IpfsStore} {node node' : List AddCall}
  {h : String}

/-- What `publish` left in a store that holds what the node accepted: under
    `h`, the manifest of the names paired with their hashes, and under each
    entry's hash a chunk file `ChunkFile::new` built for its name. -/
theorem publish_chunkFiles (hpub : publish env args node = (node', .ok h))
    (hstore : store.Holds env node') :
    ∃ hashes cs, hashes.length = args.fileNames.length ∧
      store.manifests h = some (subfileManifest args (List.zipWith FileMetaInfo.mk args.fileNames hashes)) ∧
      List.Forall₂ (AddedChunkFile store env args node')
        (List.zipWith FileMetaInfo.mk args.fileNames hashes) cs := by
  obtain ⟨hashes, hlen, hm, hk⟩ := publish_fetch hpub hstore
  obtain ⟨cs, hcs, -⟩ := (exists_forall₂_and (R := AddedChunkFile store env args node')
    (P := fun _ => True)).mpr fun f hf => by
    obtain ⟨k, hn, hh⟩ := mem_zipWith_fileMetaInfo hf
    obtain ⟨node₁, c, hpre, hc, hfc⟩ := hk k f.name f.hash hn hh
    exact ⟨c, ⟨fetchChunkFileFromIpfs_eq_ok.mp hfc, node₁, hpre, hc⟩, trivial⟩
  exact ⟨hashes, cs, hlen, fetchSubfileFromIpfs_eq_ok.mp hm, hcs⟩

/-- A subfile published from `read_dir` and served from `read_dir`. Take a
    store that holds what the node accepted and a `ChunkFile::new` that hashed
    the files the server reads, each chunk file within `u64`. The server's
    startup on the returned hash succeeds exactly when no published file's
    length is a multiple of its chunk size, and then serves the published
    manifest, with the chunk files `publish` added, from `read_dir`. -/
theorem publish_startup {digest : Bytes → String} {fs : LocalFs}
    (hpub : publish env args node = (node', .ok h)) (hstore : store.Holds env node')
    (hnew : ChunkFileNewReads digest fs env args)
    (hfit : ∀ node₁ name c, env.chunkFileNew node₁ args.readDir name args.chunkSize = .ok c →
      c.numChunks * c.chunkSize.toNat < u64Size)
    (release : PackageVersion) (publicKey : String) (freeQueryAuthToken : Option String) :
    ∃ hashes cs, hashes.length = args.fileNames.length ∧
      store.manifests h = some (subfileManifest args (List.zipWith FileMetaInfo.mk args.fileNames hashes)) ∧
      List.Forall₂ (AddedChunkFile store env args node')
        (List.zipWith FileMetaInfo.mk args.fileNames hashes) cs ∧
      ((∃ st, initializeSubfileServerContext digest store fs (.ok release) (some publicKey)
          freeQueryAuthToken [(h, args.readDir)] = .ok st) ↔
        ∀ c ∈ cs, c.totalBytes.toNat % c.chunkSize.toNat ≠ 0) ∧
      ∀ st, initializeSubfileServerContext digest store fs (.ok release) (some publicKey)
          freeQueryAuthToken [(h, args.readDir)] = .ok st →
        st.subfiles.lookup h = some ⟨h, args.readDir,
          subfileManifest args (List.zipWith FileMetaInfo.mk args.fileNames hashes), cs⟩ := by
  obtain ⟨hashes, cs, hlen, hm, hcs⟩ := publish_chunkFiles hpub hstore
  have hfetch := hcs.imp fun _ _ h => h.1
  have hbuilt : ∀ c ∈ cs, ∃ node₁ name, env.chunkFileNew node₁ args.readDir name args.chunkSize = .ok c :=
    fun c hc => let ⟨f, _, _, node₁, _, hc⟩ := Forall₂.exists_of_mem_right hcs hc; ⟨node₁, f.name, hc⟩
  -- the chunk files startup fetches are the ones `publish` added
  have hstart : ∀ st, initializeSubfileServerContext digest store fs (.ok release) (some publicKey)
      freeQueryAuthToken [(h, args.readDir)] = .ok st ↔
        (∀ c ∈ cs, verifyLocalFile digest fs args.readDir c = .ok ()) ∧
        st = ⟨publicKey, [(h, ⟨h, args.readDir,
          subfileManifest args (List.zipWith FileMetaInfo.mk args.fileNames hashes), cs⟩)], release,
          freeQueryAuthToken.map ("Bearer " ++ ·)⟩ := fun st => by
    rw [initializeSubfileServerContext_single, addSubfile_eq_ok_iff_verify]
    constructor
    · rintro ⟨m, cs', hm', hcs', hv, rfl⟩
      rw [hm] at hm'; cases hm'
      cases List.right_unique_forall₂' (fun _ _ _ h₁ h₂ => Option.some.inj (h₁.symm.trans h₂)) hcs' hfetch
      exact ⟨hv, rfl⟩
    · rintro ⟨hv, rfl⟩
      exact ⟨_, cs, hm, hfetch, hv, rfl⟩
  refine ⟨hashes, cs, hlen, hm, hcs, ⟨fun ⟨st, hst⟩ c hc hmod => ?_, fun hmod => ?_⟩,
    fun st hst => by rw [((hstart st).mp hst).2]; simp [insertSubfile]⟩
  · obtain ⟨node₁, name, hc'⟩ := hbuilt c hc
    obtain ⟨p, rfl, -⟩ := hnew _ _ _ hc'
    exact verifyLocalFile_ne_ok_of_mod_eq_zero p.wellFormed hmod _ (((hstart st).mp hst).1 _ hc)
  · refine ⟨_, (hstart _).mpr ⟨fun c hc => ?_, rfl⟩⟩
    obtain ⟨node₁, name, hc'⟩ := hbuilt c hc
    obtain ⟨p, rfl, hread⟩ := hnew _ _ _ hc'
    exact (verifyLocalFile_eq_ok ⟨p.wellFormed, hmod _ hc, hfit _ _ _ hc'⟩ _).mpr
      ⟨p.bytes, hread, p.localFileMatches⟩

end

/-- The example publisher's files: `a.bin` under `/home/dir` holds the bytes
    `0, 1, 2, 3, 4`, which `examplePublished` chunks. -/
def examplePublisherFs : LocalFs :=
  ⟨["home"], fun p => if p = ["home", "dir", "a.bin"] then some [0, 1, 2, 3, 4] else none⟩

theorem publish_startup_example :
    publish examplePublisherEnv exampleArgs [] =
      ([⟨"chunk", .ok "chunk#"⟩, ⟨"manifest", .ok "manifest#"⟩], .ok "manifest#") ∧
    ChunkFileNewReads exampleDigest examplePublisherFs examplePublisherEnv exampleArgs ∧
    ∃ hashes cs, hashes.length = exampleArgs.fileNames.length ∧
      examplePublishedStore.manifests "manifest#" =
        some (subfileManifest exampleArgs (List.zipWith FileMetaInfo.mk exampleArgs.fileNames hashes)) ∧
      List.Forall₂ (AddedChunkFile examplePublishedStore examplePublisherEnv exampleArgs
          [⟨"chunk", .ok "chunk#"⟩, ⟨"manifest", .ok "manifest#"⟩])
        (List.zipWith FileMetaInfo.mk exampleArgs.fileNames hashes) cs ∧
      ((∃ st, initializeSubfileServerContext exampleDigest examplePublishedStore examplePublisherFs
          (.ok ⟨"0.1.0"⟩) (some "pk") none [("manifest#", exampleArgs.readDir)] = .ok st) ↔
        ∀ c ∈ cs, c.totalBytes.toNat % c.chunkSize.toNat ≠ 0) ∧
      ∀ st, initializeSubfileServerContext exampleDigest examplePublishedStore examplePublisherFs
          (.ok ⟨"0.1.0"⟩) (some "pk") none [("manifest#", exampleArgs.readDir)] = .ok st →
        st.subfiles.lookup "manifest#" = some ⟨"manifest#", exampleArgs.readDir,
          subfileManifest exampleArgs (List.zipWith FileMetaInfo.mk exampleArgs.fileNames hashes), cs⟩ := by
  obtain ⟨hpub, hstore, -⟩ := publish_fetch_example
  have hbuilt : ∀ node name c, examplePublisherEnv.chunkFileNew node exampleArgs.readDir name
      exampleArgs.chunkSize = .ok c → c = exampleChunkFile := fun node name c hc => by
    simp only [examplePublisherEnv] at hc
    split_ifs at hc
    exact (Except.ok.inj hc).symm
  have hnew : ChunkFileNewReads exampleDigest examplePublisherFs examplePublisherEnv exampleArgs :=
    fun node name c hc => hbuilt node name c hc ▸ ⟨examplePublished, rfl, by decide⟩
  exact ⟨hpub, hnew, publish_startup hpub hstore hnew
    (fun node name c hc => hbuilt node name c hc ▸ by decide) ⟨"0.1.0"⟩ "pk" none⟩

end SubfileExchange
