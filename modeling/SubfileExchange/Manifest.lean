/-
  SubfileExchange.Manifest

  The manifest data model (`subfile.rs`, spec §3 and §6.3): chunk files,
  file entries, manifests, and the chunk geometry the spec fixes for them.

  Chunk `i` of a file of `T` bytes cut into chunks of `C` bytes covers
  `[i·C, min((i+1)·C, T))`, and a well-formed chunk file lists exactly
  `⌈T / C⌉` digests. `PublishedFile` is a file as the publisher chunked it:
  its bytes with a chunk file that satisfies the invariant and whose digests
  are those of its chunks. `ChunkFile::new` is not among the sources; the
  structure states what the spec (§4.1) says it returns.
-/
import SubfileExchange.Basic

namespace SubfileExchange

/-- `ChunkFile`: the per-file document listing the digests of its chunks. -/
structure ChunkFile where
  fileName : String
  totalBytes : UInt64
  chunkSize : UInt64
  chunkHashes : List String
  deriving DecidableEq, Repr

/-- `FileMetaInfo`: a manifest entry, a file name and the content address of its
    chunk file. -/
structure FileMetaInfo where
  name : String
  hash : String
  deriving DecidableEq, Repr

/-- `BlockRange`. -/
structure BlockRange where
  startBlock : UInt64
  endBlock : Option UInt64
  deriving DecidableEq, Repr

/-- `SubfileManifest`. -/
structure SubfileManifest where
  files : List FileMetaInfo
  fileType : String
  specVersion : String
  description : String
  chainId : String
  blockRange : BlockRange
  deriving DecidableEq, Repr

/-! ## Chunk geometry -/

/-- `⌈T / C⌉`, the number of chunks of a file of `T` bytes. -/
def numChunks (T C : Nat) : Nat := (T + C - 1) / C

/-- Chunk `i` of `bytes` for chunk size `C`: `bytes[i·C, min((i+1)·C, len))`. -/
def chunkOf (bytes : Bytes) (C i : Nat) : Bytes := (bytes.drop (i * C)).take C

theorem chunkOf_length (bytes : Bytes) (C i : Nat) :
    (chunkOf bytes C i).length = min C (bytes.length - i * C) := by
  simp [chunkOf]

theorem chunkOf_getElem? (bytes : Bytes) (C i k : Nat) (hk : k < C) :
    (chunkOf bytes C i)[k]? = bytes[i * C + k]? := by
  simp [chunkOf, List.getElem?_take_of_lt hk, List.getElem?_drop]

/-- When `C` does not divide `T`, the chunk count is `T / C + 1`. -/
theorem numChunks_of_mod_ne_zero {T C : Nat} (hC : 0 < C) (h : T % C ≠ 0) :
    numChunks T C = T / C + 1 := by
  have hr : T % C < C := Nat.mod_lt _ hC
  have hT : T + C - 1 = (T % C - 1) + C * (T / C + 1) := by
    have := Nat.div_add_mod T C
    rw [Nat.mul_add]; omega
  rw [numChunks, hT, Nat.add_mul_div_left _ _ hC, Nat.div_eq_of_lt (by omega), Nat.zero_add]

/-- When `C` divides `T`, the chunk count is `T / C`. -/
theorem numChunks_of_mod_eq_zero {T C : Nat} (hC : 0 < C) (h : T % C = 0) :
    numChunks T C = T / C := by
  have hT : T + C - 1 = (C - 1) + C * (T / C) := by
    have := Nat.div_add_mod T C
    omega
  rw [numChunks, hT, Nat.add_mul_div_left _ _ hC, Nat.div_eq_of_lt (by omega), Nat.zero_add]

/-- Chunk `i` starts inside the file exactly when `i < ⌈T / C⌉`. -/
theorem mul_lt_iff_lt_numChunks {T C i : Nat} (hC : 0 < C) : i * C < T ↔ i < numChunks T C := by
  unfold numChunks
  rw [show i < (T + C - 1) / C ↔ i + 1 ≤ (T + C - 1) / C from Nat.lt_iff_add_one_le,
    Nat.le_div_iff_mul_le hC, Nat.add_mul]
  omega

/-- Every byte `q < T` lies in chunk `q / C`, which is one of the `⌈T / C⌉`. -/
theorem div_lt_numChunks {T C q : Nat} (hC : 0 < C) (hq : q < T) : q / C < numChunks T C := by
  rw [← mul_lt_iff_lt_numChunks hC]
  exact lt_of_le_of_lt (Nat.div_mul_le_self q C) hq

/-! ## Well-formed and published chunk files -/

/-- The number of chunks the chunk file describes. -/
def ChunkFile.numChunks (c : ChunkFile) : Nat :=
  SubfileExchange.numChunks c.totalBytes.toNat c.chunkSize.toNat

/-- The data-model invariant: a positive chunk size and
    `len(chunk_hashes) == ceil(total_bytes / chunk_size)`. -/
structure ChunkFile.WellFormed (c : ChunkFile) : Prop where
  chunkSize_pos : 0 < c.chunkSize.toNat
  length_chunkHashes : c.chunkHashes.length = c.numChunks

/-- A file as the publisher chunked it (`ChunkFile::new`, spec §4.1). -/
structure PublishedFile (digest : Bytes → String) where
  bytes : Bytes
  chunkFile : ChunkFile
  wellFormed : chunkFile.WellFormed
  totalBytes_eq : chunkFile.totalBytes.toNat = bytes.length
  chunkHashes_eq : ∀ i, i < chunkFile.numChunks →
    chunkFile.chunkHashes[i]? = some (digest (chunkOf bytes chunkFile.chunkSize.toNat i))

/-- The digest function never maps other bytes to the digest of a published
    chunk: `verify_chunk(b, chunk_hashes[i])` holds only for chunk `i`. -/
def CollisionFree (digest : Bytes → String) (bytes : Bytes) (c : ChunkFile) : Prop :=
  ∀ i h b, i < c.numChunks → c.chunkHashes[i]? = some h → verifyChunk digest b h = true →
    b = chunkOf bytes c.chunkSize.toNat i

/-- An injective digest has no collisions on any published file. -/
theorem PublishedFile.collisionFree_of_injective {digest : Bytes → String} (p : PublishedFile digest)
    (hinj : Function.Injective digest) : CollisionFree digest p.bytes p.chunkFile := by
  intro i h b hi hh hv
  rw [p.chunkHashes_eq i hi] at hh
  cases hh
  exact hinj (verifyChunk_iff.mp hv)

/-- Every digest of a published chunk file is that of some bytes: its chunk. -/
theorem PublishedFile.verifiable {digest : Bytes → String} (p : PublishedFile digest) :
    ∀ h ∈ p.chunkFile.chunkHashes, ∃ b, verifyChunk digest b h = true := by
  intro h hh
  obtain ⟨i, hi⟩ := List.mem_iff_getElem?.mp hh
  have hlt : i < p.chunkFile.numChunks :=
    p.wellFormed.length_chunkHashes ▸ (List.getElem?_eq_some_iff.mp hi).1
  rw [p.chunkHashes_eq i hlt, Option.some.injEq] at hi
  exact ⟨_, verifyChunk_iff.mpr hi⟩

/-! ## The content store (`subfile_reader.rs`) -/

/-- The content store as `cat` reaches it: the document stored under a hash,
    parsed as a manifest or as a chunk file. -/
structure IpfsStore where
  manifests : String → Option SubfileManifest
  chunkFiles : String → Option ChunkFile

/-- `fetch_subfile_from_ipfs`. -/
def fetchSubfileFromIpfs (store : IpfsStore) (ipfsHash : String) : Except Failure SubfileManifest :=
  match store.manifests ipfsHash with
  | some m => .ok m
  | none => .error (.error "IPFS error")

/-- `fetch_chunk_file_from_ipfs`. -/
def fetchChunkFileFromIpfs (store : IpfsStore) (ipfsHash : String) : Except Failure ChunkFile :=
  match store.chunkFiles ipfsHash with
  | some c => .ok c
  | none => .error (.error "IPFS error")

@[simp] theorem fetchSubfileFromIpfs_eq_ok {store : IpfsStore} {h : String} {m : SubfileManifest} :
    fetchSubfileFromIpfs store h = .ok m ↔ store.manifests h = some m := by
  unfold fetchSubfileFromIpfs; split <;> simp_all

@[simp] theorem fetchChunkFileFromIpfs_eq_ok {store : IpfsStore} {h : String} {c : ChunkFile} :
    fetchChunkFileFromIpfs store h = .ok c ↔ store.chunkFiles h = some c := by
  unfold fetchChunkFileFromIpfs; split <;> simp_all

/-! ## Examples -/

/-- A digest for examples: byte `b` becomes the letter with code `b + 97`. -/
def exampleDigest (b : Bytes) : String := String.mk (b.map fun x => Char.ofNat (x.toNat + 97))

theorem exampleDigest_injective : Function.Injective exampleDigest := by
  have hchar : ∀ x : UInt8, (Char.ofNat (x.toNat + 97)).toNat = x.toNat + 97 := fun x => by
    have hv : (x.toNat + 97).isValidChar :=
      Or.inl (by have := x.toNat_lt_size; simp [UInt8.size] at this; omega)
    rw [Char.ofNat, dif_pos hv]
    rfl
  intro b b' h
  have h' := congrArg String.data h
  simp only [exampleDigest] at h'
  exact List.map_injective_iff.mpr (fun x y hxy => UInt8.toNat.inj (by
    have := congrArg Char.toNat hxy; rw [hchar, hchar] at this; omega)) h'

/-- A manifest of one file `name` whose chunk file is stored under `c`. -/
def exampleManifest (name : String) : SubfileManifest := ⟨[⟨name, "c"⟩], "", "", "", "", ⟨0, none⟩⟩

/-- A store holding manifest `m` (`exampleManifest name`) and the chunk file `c`. -/
def exampleStore (name : String) (c : ChunkFile) : IpfsStore where
  manifests h := if h = "m" then some (exampleManifest name) else none
  chunkFiles h := if h = "c" then some c else none

/-- Five bytes in chunks of four. -/
def exampleChunkFile : ChunkFile := ⟨"a.bin", 5, 4, ["abcd", "e"]⟩

/-- The bytes `0, 1, 2, 3, 4`, published as `exampleChunkFile`. -/
def examplePublished : PublishedFile exampleDigest where
  bytes := [0, 1, 2, 3, 4]
  chunkFile := exampleChunkFile
  wellFormed := ⟨by decide, by decide⟩
  totalBytes_eq := by decide
  chunkHashes_eq := by decide

end SubfileExchange
