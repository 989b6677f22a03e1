/-
  SubfileExchange.Publisher

  `SubfilePublisher::publish` (`publisher.rs`, spec §4.3). For each configured
  file name in order, `write_chunk_file` builds the name's `ChunkFile` and
  serialises it to YAML, and `hash_and_publish_file` adds the YAML to the IPFS
  node; `hash_and_publish_files` pushes `FileMetaInfo { name, hash }` for each.
  `construct_subfile_manifest` serialises the manifest of those entries and the
  configured metadata, and `publish_subfile_manifest` adds it. Each `?` returns
  the first error.

  `ChunkFile::new`, the YAML serialiser and the node are not among the sources:
  `PublisherEnv` takes each as a function that may fail, the node's reply to an
  add depending on every add sent before it. The node is the list of adds it was
  sent, each with its reply (`AddCall`); a refused add leaves nothing behind but
  its record.

  `Published` takes the result of `publish` apart, in terms of `ChunkFile::new`,
  the serialisers and the node only: the chunk files of the names were built,
  serialised (`ChunkYaml`) and added in order, each add answered with a hash
  (`FilesAdded`), until either a chunk file was not built or serialised or its
  add refused, and `publish` returned that error; or every file was added and
  the manifest listing the names paired with their hashes
  (`PublisherArgs.manifest`) was serialised and added, or its serialisation or
  its add failed with the error returned. `write_chunk_file` and
  `construct_subfile_manifest` meet these readings (`writeChunkFile_eq_iff`,
  `subfileManifest_zipWith`); `publish` does what `Published` says
  (`publish_spec`), and nothing else (`published_iff`). `publish_fetch` reads
  the result back as the downloader does: from a store holding what the node
  accepted, the manifest lists the configured names and each entry's chunk file
  is the one `ChunkFile::new` built.
-/
import SubfileExchange.Manifest

namespace SubfileExchange

/-- The fields of `PublisherArgs` that `publish` reads. -/
structure PublisherArgs where
  readDir : String
  fileNames : List String
  chunkSize : UInt64
  fileType : String
  fileVersion : String
  description : String
  chainId : String
  startBlock : UInt64
  endBlock : Option UInt64
  deriving DecidableEq, Repr

/-- One add sent to the IPFS node: the text added and the node's reply, the
    content hash or an error. -/
structure AddCall where
  content : String
  reply : Except String String
  deriving DecidableEq, Repr

/-- What `publish` runs against: `ChunkFile::new(read_dir, file_name, chunk_size)`
    on the files as they are once the adds sent so far went out,
    `serde_yaml::to_string` of a chunk file and of a manifest, and the node's
    reply to an add, given the adds sent before it. -/
structure PublisherEnv where
  chunkFileNew : List AddCall → String → String → UInt64 → Except String ChunkFile
  chunkFileToYaml : ChunkFile → Except String String
  manifestToYaml : SubfileManifest → Except String String
  addReply : List AddCall → String → Except String String

/-! ## `publish` -/

section
variable (env : PublisherEnv) (args : PublisherArgs)

/-- `write_chunk_file`, once the adds of `node` went out: the YAML of the name's
    chunk file. -/
def writeChunkFile (node : List AddCall) (fileName : String) : Except String String := do
  let chunkFile ← env.chunkFileNew node args.readDir fileName args.chunkSize
  env.chunkFileToYaml chunkFile

/-- `ipfs_client.add(..).hash`: the node records the add and its reply. -/
def ipfsAdd (node : List AddCall) (content : String) : List AddCall × Except String String :=
  (node ++ [⟨content, env.addReply node content⟩], env.addReply node content)

/-- `hash_and_publish_file`. -/
def hashAndPublishFile (node : List AddCall) (fileName : String) :
    List AddCall × Except String String :=
  match writeChunkFile env args node fileName with
  | .ok yamlStr => ipfsAdd env node yamlStr
  | .error e => (node, .error e)

/-- The loop of `hash_and_publish_files`, with the entries pushed so far. -/
def hashAndPublishFilesLoop (node : List AddCall) (rootHashes : List FileMetaInfo) :
    List String → List AddCall × Except String (List FileMetaInfo)
  | [] => (node, .ok rootHashes)
  | fileName :: fileNames =>
    match hashAndPublishFile env args node fileName with
    | (node, .ok ipfsHash) =>
      hashAndPublishFilesLoop node (rootHashes ++ [⟨fileName, ipfsHash⟩]) fileNames
    | (node, .error e) => (node, .error e)

/-- `hash_and_publish_files`. -/
def hashAndPublishFiles (node : List AddCall) : List AddCall × Except String (List FileMetaInfo) :=
  hashAndPublishFilesLoop env args node [] args.fileNames

/-- The manifest `construct_subfile_manifest` builds from the entries. -/
def subfileManifest (fileMetaInfo : List FileMetaInfo) : SubfileManifest :=
  ⟨fileMetaInfo, args.fileType, args.fileVersion, args.description, args.chainId,
    ⟨args.startBlock, args.endBlock⟩⟩

/-- `construct_subfile_manifest`. -/
def constructSubfileManifest (fileMetaInfo : List FileMetaInfo) : Except String String :=
  env.manifestToYaml (subfileManifest args fileMetaInfo)

/-- `publish_subfile_manifest`. -/
def publishSubfileManifest (node : List AddCall) (manifestYaml : String) :
    List AddCall × Except String String :=
  ipfsAdd env node manifestYaml

/-- `publish`: the node after the call, and the manifest's hash or the error. -/
def publish (node : List AddCall) : List AddCall × Except String String :=
  match hashAndPublishFiles env args node with
  | (node, .error e) => (node, .error e)
  | (node, .ok metaInfo) =>
    match constructSubfileManifest env args metaInfo with
    | .ok manifestYaml => publishSubfileManifest env node manifestYaml
    | .error e => (node, .error e)

end

/-! ## What `publish` did, taken apart -/

/-- What making the YAML of `name`'s chunk file, once the adds of `node` went out,
    gives: `ChunkFile::new` built a chunk file and it serialised to `yaml`; or one
    of the two failed with `e`. -/
def ChunkYaml (env : PublisherEnv) (args : PublisherArgs) (node : List AddCall) (name : String) :
    Except String String → Prop
  | .ok yaml => ∃ c, env.chunkFileNew node args.readDir name args.chunkSize = .ok c ∧
      env.chunkFileToYaml c = .ok yaml
  | .error e => env.chunkFileNew node args.readDir name args.chunkSize = .error e ∨
      ∃ c, env.chunkFileNew node args.readDir name args.chunkSize = .ok c ∧ env.chunkFileToYaml c = .error e

/-- The manifest `publish` is to add (spec §4.3): the configured names in order,
    each paired with the hash in `hashes` at its position, and the configured
    metadata. -/
def PublisherArgs.manifest (args : PublisherArgs) (hashes : List String) : SubfileManifest where
  files := List.zipWith FileMetaInfo.mk args.fileNames hashes
  fileType := args.fileType
  specVersion := args.fileVersion
  description := args.description
  chainId := args.chainId
  blockRange := ⟨args.startBlock, args.endBlock⟩

/-- `write_chunk_file` makes the YAML `ChunkYaml` describes. -/
theorem writeChunkFile_eq_iff {env : PublisherEnv} {args : PublisherArgs} {node : List AddCall}
    {name : String} {r : Except String String} :
    writeChunkFile env args node name = r ↔ ChunkYaml env args node name r := by
  unfold writeChunkFile
  rcases hc : env.chunkFileNew node args.readDir name args.chunkSize with e | c <;>
    rcases r with e' | yaml <;> simp [ChunkYaml, hc, eq_comm, bind, Except.bind]

/-- `construct_subfile_manifest` serialises the manifest of the names paired with
    their hashes. -/
theorem subfileManifest_zipWith (args : PublisherArgs) (hashes : List String) :
    subfileManifest args (List.zipWith FileMetaInfo.mk args.fileNames hashes) = args.manifest hashes :=
  rfl

/-- From the node `node`, the chunk files of `names` were built and added in
    order, the node answering each add with the hash in `hashes`, leaving the
    node `node'`. -/
inductive FilesAdded (env : PublisherEnv) (args : PublisherArgs) :
    List AddCall → List String → List String → List AddCall → Prop
  | nil (node : List AddCall) : FilesAdded env args node [] [] node
  | cons {node node' : List AddCall} {name yaml hash : String} {names hashes : List String} :
      ChunkYaml env args node name (.ok yaml) → env.addReply node yaml = .ok hash →
      FilesAdded env args (node ++ [⟨yaml, .ok hash⟩]) names hashes node' →
      FilesAdded env args node (name :: names) (hash :: hashes) node'

/-- How the loop of `hash_and_publish_files` over `names` from `node` ended: with
    every file added, or at the first name whose chunk file was not built, or
    whose add was refused, with the files before it added. -/
inductive FilesPublished (env : PublisherEnv) (args : PublisherArgs) (node : List AddCall)
    (names : List String) : List AddCall × Except String (List String) → Prop
  | ok {hashes : List String} {node' : List AddCall} :
      FilesAdded env args node names hashes node' → FilesPublished env args node names (node', .ok hashes)
  | chunkFileFailed {pre post hashes : List String} {name e : String} {node' : List AddCall} :
      names = pre ++ name :: post → FilesAdded env args node pre hashes node' →
      ChunkYaml env args node' name (.error e) → FilesPublished env args node names (node', .error e)
  | chunkAddFailed {pre post hashes : List String} {name yaml e : String} {node' : List AddCall} :
      names = pre ++ name :: post → FilesAdded env args node pre hashes node' →
      ChunkYaml env args node' name (.ok yaml) → env.addReply node' yaml = .error e →
      FilesPublished env args node names (node' ++ [⟨yaml, .error e⟩], .error e)

/-- What a call of `publish` from `node` did: the loop over the configured names
    stopped at a failure, returned as it is; or it added every file, and then the
    manifest whose entries are the names paired with the node's replies was
    serialised and added, and its hash returned, or the serialisation or the add
    failed and its error was returned. -/
inductive Published (env : PublisherEnv) (args : PublisherArgs) (node : List AddCall) :
    List AddCall × Except String String → Prop
  | filesFailed {node' : List AddCall} {e : String} :
      FilesPublished env args node args.fileNames (node', .error e) →
      Published env args node (node', .error e)
  | ok {hashes : List String} {node' : List AddCall} {yaml hash : String} :
      FilesAdded env args node args.fileNames hashes node' →
      env.manifestToYaml (args.manifest hashes) = .ok yaml →
      env.addReply node' yaml = .ok hash → Published env args node (node' ++ [⟨yaml, .ok hash⟩], .ok hash)
  | manifestFailed {hashes : List String} {node' : List AddCall} {e : String} :
      FilesAdded env args node args.fileNames hashes node' →
      env.manifestToYaml (args.manifest hashes) = .error e →
      Published env args node (node', .error e)
  | manifestAddFailed {hashes : List String} {node' : List AddCall} {yaml e : String} :
      FilesAdded env args node args.fileNames hashes node' →
      env.manifestToYaml (args.manifest hashes) = .ok yaml →
      env.addReply node' yaml = .error e → Published env args node (node' ++ [⟨yaml, .error e⟩], .error e)

section
variable {env : PublisherEnv} {args : PublisherArgs}

/-- A file added before the others: the loop over the rest ended the same way,
    one more hash in front. -/
theorem FilesPublished.cons {node : List AddCall} {name yaml hash : String} {names : List String}
    {r : List AddCall × Except String (List String)} (hw : ChunkYaml env args node name (.ok yaml))
    (ha : env.addReply node yaml = .ok hash)
    (hr : FilesPublished env args (node ++ [⟨yaml, .ok hash⟩]) names r) :
    FilesPublished env args node (name :: names) (r.1, r.2.map (hash :: ·)) := by
  cases hr with
  | ok hf => exact .ok (.cons hw ha hf)
  | chunkFileFailed hnames hf hw' =>
    exact .chunkFileFailed (by rw [hnames, List.cons_append]) (.cons hw ha hf) hw'
  | chunkAddFailed hnames hf hw' ha' =>
    exact .chunkAddFailed (by rw [hnames, List.cons_append]) (.cons hw ha hf) hw' ha'

/-- The loop of `hash_and_publish_files` from the entries `rootHashes` ends as
    `FilesPublished` says, having pushed an entry for each name it added. -/
theorem hashAndPublishFilesLoop_published : ∀ (names : List String) (node : List AddCall)
    (rootHashes : List FileMetaInfo), ∃ r, FilesPublished env args node names r ∧
      hashAndPublishFilesLoop env args node rootHashes names =
        (r.1, r.2.map fun hashes => rootHashes ++ List.zipWith FileMetaInfo.mk names hashes)
  | [], node, rootHashes => ⟨(node, .ok []), .ok (.nil node), by simp [hashAndPublishFilesLoop, Except.map]⟩
  | name :: names, node, rootHashes => by
    rcases hw : writeChunkFile env args node name with e | yaml
    · exact ⟨(node, .error e), .chunkFileFailed (List.nil_append _).symm (.nil node)
        (writeChunkFile_eq_iff.mp hw), by simp [hashAndPublishFilesLoop, hashAndPublishFile, hw, Except.map]⟩
    rcases ha : env.addReply node yaml with e | hash
    · exact ⟨(node ++ [⟨yaml, .error e⟩], .error e),
        .chunkAddFailed (List.nil_append _).symm (.nil node) (writeChunkFile_eq_iff.mp hw) ha,
        by simp [hashAndPublishFilesLoop, hashAndPublishFile, hw, ipfsAdd, ha, Except.map]⟩
    obtain ⟨⟨node', r⟩, hr, hloop⟩ := hashAndPublishFilesLoop_published names
      (node ++ [⟨yaml, .ok hash⟩]) (rootHashes ++ [⟨name, hash⟩])
    refine ⟨(node', r.map (hash :: ·)), hr.cons (writeChunkFile_eq_iff.mp hw) ha, ?_⟩
    simp only [hashAndPublishFilesLoop, hashAndPublishFile, hw, ipfsAdd, ha, hloop]
    cases r <;> simp [Except.map]

/-- `publish` from `node` did what `Published` says. -/
theorem publish_spec (env : PublisherEnv) (args : PublisherArgs) (node : List AddCall) :
    Published env args node (publish env args node) := by
  obtain ⟨⟨node', r⟩, hr, hloop⟩ := @hashAndPublishFilesLoop_published env args args.fileNames node []
  simp only [publish, hashAndPublishFiles, hloop, List.nil_append]
  cases r with
  | error e => exact .filesFailed hr
  | ok hashes =>
    cases hr with
    | ok hf =>
      simp only [Except.map, constructSubfileManifest, subfileManifest_zipWith]
      rcases hy : env.manifestToYaml (args.manifest hashes) with e | yaml
      · exact .manifestFailed hf hy
      rcases ha : env.addReply node' yaml with e | hash
      · simp only [publishSubfileManifest, ipfsAdd, ha]
        exact .manifestAddFailed hf hy ha
      · simp only [publishSubfileManifest, ipfsAdd, ha]
        exact .ok hf hy ha

theorem FilesPublished.nil_eq {node : List AddCall} {r : List AddCall × Except String (List String)}
    (h : FilesPublished env args node [] r) : r = (node, .ok []) := by
  cases h with
  | ok hf => cases hf; rfl
  | chunkFileFailed hnames => simp at hnames
  | chunkAddFailed hnames => simp at hnames

/-- The loop over `name :: names` stopped at `name`, or added it and went on. -/
theorem FilesPublished.cons_eq {node : List AddCall} {name : String} {names : List String}
    {r : List AddCall × Except String (List String)}
    (h : FilesPublished env args node (name :: names) r) :
    (∃ e, writeChunkFile env args node name = .error e ∧ r = (node, .error e)) ∨
    (∃ yaml e, writeChunkFile env args node name = .ok yaml ∧ env.addReply node yaml = .error e ∧
      r = (node ++ [⟨yaml, .error e⟩], .error e)) ∨
    ∃ yaml hash r', writeChunkFile env args node name = .ok yaml ∧ env.addReply node yaml = .ok hash ∧
      FilesPublished env args (node ++ [⟨yaml, .ok hash⟩]) names r' ∧
      r = (r'.1, r'.2.map (hash :: ·)) := by
  cases h with
  | ok hf =>
    cases hf with
    | cons hw ha hf => exact .inr (.inr ⟨_, _, _, writeChunkFile_eq_iff.mpr hw, ha, .ok hf, rfl⟩)
  | @chunkFileFailed pre post _ _ _ _ hnames hf hw =>
    cases pre with
    | nil =>
      obtain ⟨rfl, rfl⟩ := List.cons.inj hnames
      cases hf
      exact .inl ⟨_, writeChunkFile_eq_iff.mpr hw, rfl⟩
    | cons x pre =>
      obtain ⟨rfl, rfl⟩ := List.cons.inj hnames
      cases hf with
      | cons hw₀ ha₀ hf =>
        exact .inr (.inr ⟨_, _, _, writeChunkFile_eq_iff.mpr hw₀, ha₀, .chunkFileFailed rfl hf hw, rfl⟩)
  | @chunkAddFailed pre post _ _ _ _ _ hnames hf hw ha =>
    cases pre with
    | nil =>
      obtain ⟨rfl, rfl⟩ := List.cons.inj hnames
      cases hf
      exact .inr (.inl ⟨_, _, writeChunkFile_eq_iff.mpr hw, ha, rfl⟩)
    | cons x pre =>
      obtain ⟨rfl, rfl⟩ := List.cons.inj hnames
      cases hf with
      | cons hw₀ ha₀ hf =>
        exact .inr (.inr ⟨_, _, _, writeChunkFile_eq_iff.mpr hw₀, ha₀, .chunkAddFailed rfl hf hw ha, rfl⟩)

/-- The loop ends one way only. -/
theorem FilesPublished.unique : ∀ {names : List String} {node : List AddCall}
    {r r' : List AddCall × Except String (List String)},
    FilesPublished env args node names r → FilesPublished env args node names r' → r = r'
  | [], _, _, _, h, h' => h.nil_eq.trans h'.nil_eq.symm
  | _ :: _, _, _, _, h, h' => by
    rcases h.cons_eq with ⟨e, hw, rfl⟩ | ⟨yaml, e, hw, ha, rfl⟩ | ⟨yaml, hash, r₁, hw, ha, h₁, rfl⟩ <;>
      rcases h'.cons_eq with ⟨e', hw', rfl⟩ | ⟨yaml', e', hw', ha', rfl⟩ |
        ⟨yaml', hash', r₂, hw', ha', h₂, rfl⟩ <;>
      rw [hw] at hw' <;> cases hw'
    · rfl
    · rw [ha] at ha'; cases ha'; rfl
    · rw [ha] at ha'; cases ha'
    · rw [ha] at ha'; cases ha'
    · rw [ha] at ha'; cases ha'; rw [FilesPublished.unique h₁ h₂]

/-- `Published` describes `publish` exactly: what `publish` from `node` returns
    is the one result it allows. -/
theorem published_iff (env : PublisherEnv) (args : PublisherArgs) (node : List AddCall)
    (r : List AddCall × Except String String) : Published env args node r ↔ publish env args node = r := by
  refine ⟨fun h => ?_, fun h => h ▸ publish_spec env args node⟩
  obtain ⟨r₀, hr₀, hloop⟩ := @hashAndPublishFilesLoop_published env args args.fileNames node []
  cases h with
  | filesFailed hf =>
    cases hr₀.unique hf
    simp only [publish, hashAndPublishFiles, hloop]
    rfl
  | ok hf hy ha | manifestAddFailed hf hy ha =>
    cases hr₀.unique (.ok hf)
    simp only [publish, hashAndPublishFiles, hloop, Except.map, List.nil_append, constructSubfileManifest,
      subfileManifest_zipWith, hy, publishSubfileManifest, ipfsAdd, ha]
  | manifestFailed hf hy =>
    cases hr₀.unique (.ok hf)
    simp only [publish, hashAndPublishFiles, hloop, Except.map, List.nil_append, constructSubfileManifest,
      subfileManifest_zipWith, hy]

end

/-! ## The adds `publish` made -/

section
variable {env : PublisherEnv} {args : PublisherArgs}

/-- The adds of `FilesAdded` are the chunk files' YAML, one per name, each
    answered with its hash, and nothing else. -/
theorem FilesAdded.eq_append {node node' : List AddCall} {names hashes : List String}
    (h : FilesAdded env args node names hashes node') :
    hashes.length = names.length ∧ ∃ yamls : List String, yamls.length = names.length ∧
      node' = node ++ List.zipWith (fun yaml hash => AddCall.mk yaml (.ok hash)) yamls hashes := by
  induction h with
  | nil => exact ⟨rfl, [], rfl, by simp⟩
  | @cons _ _ _ yaml _ _ _ _ _ _ ih =>
    obtain ⟨hlen, yamls, hy, rfl⟩ := ih
    exact ⟨by simp [hlen], yaml :: yamls, by simp [hy], by simp⟩

theorem FilesAdded.prefix {node node' : List AddCall} {names hashes : List String}
    (h : FilesAdded env args node names hashes node') : node <+: node' := by
  induction h with
  | nil => exact List.prefix_refl _
  | cons _ _ _ ih => exact (List.prefix_append _ _).trans ih

/-- The `k`-th name's chunk file was serialised, once the adds of a prefix of the
    node went out, and its YAML added and answered with the `k`-th hash. -/
theorem FilesAdded.added {node node' : List AddCall} {names hashes : List String}
    (h : FilesAdded env args node names hashes node') :
    ∀ {k : Nat} {name hash : String}, names[k]? = some name → hashes[k]? = some hash →
      ∃ node₁ yaml, node₁ <+: node' ∧ ChunkYaml env args node₁ name (.ok yaml) ∧
        AddCall.mk yaml (.ok hash) ∈ node' := by
  induction h with
  | nil => intro k _ _ hn; simp at hn
  | cons hw _ hrest ih =>
    intro k name hash hn hh
    cases k with
    | zero =>
      simp only [List.getElem?_cons_zero, Option.some.injEq] at hn hh
      subst hn hh
      exact ⟨_, _, (List.prefix_append _ _).trans hrest.prefix, hw,
        hrest.prefix.subset (List.mem_append_right _ (List.mem_singleton_self _))⟩
    | succ k =>
      simp only [List.getElem?_cons_succ] at hn hh
      exact ih hn hh

end

/-! ## What a downloader reads back -/

/-- The store serves what the node accepted, read back: a text the node answered
    with a hash reads back, under that hash, as the manifest or chunk file it is
    the YAML of (spec §4.2, `parse(serialize(m)) == m`). -/
def IpfsStore.Holds (store : IpfsStore) (env : PublisherEnv) (node : List AddCall) : Prop :=
  ∀ content h, AddCall.mk content (.ok h) ∈ node →
    (∀ m, env.manifestToYaml m = .ok content → store.manifests h = some m) ∧
    (∀ c, env.chunkFileToYaml c = .ok content → store.chunkFiles h = some c)

section
variable {env : PublisherEnv} {args : PublisherArgs}

/-- After `publish` returned the hash `h`, a downloader reading a store that
    holds what the node accepted fetches, under `h`, the manifest whose entries
    are the configured names, each with a hash under which it fetches the chunk
    file `ChunkFile::new` built for that name. -/
theorem publish_fetch {store : IpfsStore} {node node' : List AddCall} {h : String}
    (hpub : publish env args node = (node', .ok h)) (hstore : store.Holds env node') :
    ∃ hashes, hashes.length = args.fileNames.length ∧
      fetchSubfileFromIpfs store h =
        .ok (subfileManifest args (List.zipWith FileMetaInfo.mk args.fileNames hashes)) ∧
      ∀ (k : Nat) (name hash : String), args.fileNames[k]? = some name → hashes[k]? = some hash →
        ∃ node₁ c, node₁ <+: node' ∧ env.chunkFileNew node₁ args.readDir name args.chunkSize = .ok c ∧
          fetchChunkFileFromIpfs store hash = .ok c := by
  have hp := publish_spec env args node
  rw [hpub] at hp
  cases hp with
  | @ok hashes node₀ yaml _ hf hy _ =>
    obtain ⟨hlen, -⟩ := hf.eq_append
    refine ⟨hashes, hlen, fetchSubfileFromIpfs_eq_ok.mpr
      ((hstore yaml h (List.mem_append_right _ (List.mem_singleton_self _))).1 _ hy),
      fun k name hash hn hh => ?_⟩
    obtain ⟨node₁, yaml', hpre, hw, hmem⟩ := hf.added hn hh
    obtain ⟨c, hc, hcy⟩ := hw
    exact ⟨node₁, c, hpre.trans (List.prefix_append _ _), hc, fetchChunkFileFromIpfs_eq_ok.mpr
      ((hstore yaml' hash (List.mem_append_left _ hmem)).2 c hcy)⟩

/-- A publisher of the one file `a.bin`, under `dir` in chunks of four bytes. -/
def exampleArgs : PublisherArgs := ⟨"dir", ["a.bin"], 4, "flatfiles", "0.0.0", "", "0", 0, none⟩

/-- `a.bin`'s chunk file is `exampleChunkFile`; the YAML of the chunk file and
    of the manifest are tags, every other value failing to serialise; the node
    answers an add of `x` with the hash `x#`. -/
def examplePublisherEnv : PublisherEnv where
  chunkFileNew _ _ name _ := if name = "a.bin" then .ok exampleChunkFile else .error "No such file"
  chunkFileToYaml c := if c = exampleChunkFile then .ok "chunk" else .error "unserialisable"
  manifestToYaml m := if m = subfileManifest exampleArgs [⟨"a.bin", "chunk#"⟩] then .ok "manifest"
    else .error "unserialisable"
  addReply _ content := .ok (content ++ "#")

/-- The store holding what `examplePublisherEnv`'s node accepted. -/
def examplePublishedStore : IpfsStore where
  manifests h := if h = "manifest#" then some (subfileManifest exampleArgs [⟨"a.bin", "chunk#"⟩])
    else none
  chunkFiles h := if h = "chunk#" then some exampleChunkFile else none

theorem publish_fetch_example :
    publish examplePublisherEnv exampleArgs [] =
      ([⟨"chunk", .ok "chunk#"⟩, ⟨"manifest", .ok "manifest#"⟩], .ok "manifest#") ∧
    examplePublishedStore.Holds examplePublisherEnv
      [⟨"chunk", .ok "chunk#"⟩, ⟨"manifest", .ok "manifest#"⟩] ∧
    ∃ hashes, hashes.length = exampleArgs.fileNames.length ∧
      fetchSubfileFromIpfs examplePublishedStore "manifest#" =
        .ok (subfileManifest exampleArgs (List.zipWith FileMetaInfo.mk exampleArgs.fileNames hashes)) ∧
      ∀ (k : Nat) (name hash : String), exampleArgs.fileNames[k]? = some name →
        hashes[k]? = some hash → ∃ node₁ c, node₁ <+: [⟨"chunk", .ok "chunk#"⟩, ⟨"manifest", .ok "manifest#"⟩] ∧
          examplePublisherEnv.chunkFileNew node₁ exampleArgs.readDir name exampleArgs.chunkSize = .ok c ∧
          fetchChunkFileFromIpfs examplePublishedStore hash = .ok c := by
  have hpub : publish examplePublisherEnv exampleArgs [] =
      ([⟨"chunk", .ok "chunk#"⟩, ⟨"manifest", .ok "manifest#"⟩], .ok "manifest#") := by decide
  have hstore : examplePublishedStore.Holds examplePublisherEnv
      [⟨"chunk", .ok "chunk#"⟩, ⟨"manifest", .ok "manifest#"⟩] := by
    intro content h hmem
    simp only [List.mem_cons, AddCall.mk.injEq, Except.ok.injEq, List.mem_nil_iff, or_false] at hmem
    rcases hmem with ⟨rfl, rfl⟩ | ⟨rfl, rfl⟩
    · refine ⟨fun m hm => ?_, fun c hc => ?_⟩
      · simp only [examplePublisherEnv] at hm
        split_ifs at hm
        simp at hm
      · simp only [examplePublisherEnv] at hc
        split_ifs at hc with he
        simp [examplePublishedStore, he]
    · refine ⟨fun m hm => ?_, fun c hc => ?_⟩
      · simp only [examplePublisherEnv] at hm
        split_ifs at hm with he
        simp [examplePublishedStore, he]
      · simp only [examplePublisherEnv] at hc
        split_ifs at hc
        simp at hc
  exact ⟨hpub, hstore, publish_fetch hpub hstore⟩

end

end SubfileExchange
