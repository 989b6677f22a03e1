/-
  SubfileExchange.ChunkLoop

  The index loop that `download_chunk_file`, `chunks_to_download` and the
  server's startup verification share: `for i in 0..(total_bytes / chunk_size + 1)`,
  with `start = i * chunk_size`, `end = min(start + chunk_size, total_bytes) - 1`
  and `chunk_hashes[i]` in its body.

  The bound is `⌊T / C⌋ + 1`, which is the spec's `⌈T / C⌉` only when `C` does
  not divide `T`. When it does, the loop runs one index too far: the range of
  index `T / C` is `[T, T - 1]`, and on a well-formed chunk file
  `chunk_hashes[T / C]` is out of bounds (`index_loop_last_out_of_bounds`).
  When `C` does not divide `T` the loop visits exactly the spec's chunks, and
  the half-open span of index `i` holds exactly the bytes `q < T` with
  `q / C = i` (`mem_chunkSpan_iff`): the spans are disjoint and cover the file.
-/
import SubfileExchange.Manifest

namespace SubfileExchange

/-- The bound of the index loop, `total_bytes / chunk_size + 1`. -/
def loopBound (c : ChunkFile) : Except Failure Nat := do
  U64.add (← U64.div c.totalBytes.toNat c.chunkSize.toNat) 1

/-- `start` and `end` of index `i`. -/
def chunkRange (c : ChunkFile) (i : Nat) : Except Failure (Nat × Nat) := do
  let start ← U64.mul i c.chunkSize.toNat
  let end_ ← U64.sub (min (← U64.add start c.chunkSize.toNat) c.totalBytes.toNat) 1
  pure (start, end_)

@[simp] theorem loopBound_eq_ok {c : ChunkFile} {n : Nat} :
    loopBound c = .ok n ↔ 0 < c.chunkSize.toNat ∧
      c.totalBytes.toNat / c.chunkSize.toNat + 1 < u64Size ∧
      n = c.totalBytes.toNat / c.chunkSize.toNat + 1 := by
  simp only [loopBound, Except.bind_eq_ok, U64.div_eq_ok, U64.add_eq_ok]
  constructor
  · rintro ⟨a, ⟨hC, rfl⟩, h, rfl⟩; exact ⟨Nat.pos_of_ne_zero hC, h, rfl⟩
  · rintro ⟨hC, h, rfl⟩; exact ⟨_, ⟨Nat.pos_iff_ne_zero.mp hC, rfl⟩, h, rfl⟩

@[simp] theorem chunkRange_eq_ok {c : ChunkFile} {i s e : Nat} :
    chunkRange c i = .ok (s, e) ↔
      i * c.chunkSize.toNat + c.chunkSize.toNat < u64Size ∧
      0 < min (i * c.chunkSize.toNat + c.chunkSize.toNat) c.totalBytes.toNat ∧
      s = i * c.chunkSize.toNat ∧
      e = min (i * c.chunkSize.toNat + c.chunkSize.toNat) c.totalBytes.toNat - 1 := by
  simp only [chunkRange, Except.bind_eq_ok, U64.mul_eq_ok, U64.add_eq_ok, U64.sub_eq_ok, pure,
    Except.pure, Except.ok.injEq, Prod.mk.injEq]
  constructor
  · rintro ⟨_, ⟨-, rfl⟩, _, ⟨h, rfl⟩, _, ⟨h1, rfl⟩, rfl, rfl⟩
    exact ⟨h, by omega, rfl, rfl⟩
  · rintro ⟨h, h1, rfl, rfl⟩
    exact ⟨_, ⟨by omega, rfl⟩, _, ⟨h, rfl⟩, _, ⟨by omega, rfl⟩, rfl, rfl⟩

/-- The loop runs at least once per chunk. -/
theorem numChunks_le_of_loopBound {c : ChunkFile} {n : Nat} (hn : loopBound c = .ok n) :
    c.numChunks ≤ n := by
  obtain ⟨hC, -, rfl⟩ := loopBound_eq_ok.mp hn
  calc c.numChunks ≤ (c.totalBytes.toNat + c.chunkSize.toNat) / c.chunkSize.toNat :=
        Nat.div_le_div_right (by omega)
    _ = c.totalBytes.toNat / c.chunkSize.toNat + 1 := Nat.add_div_right _ hC

theorem loopBound_okOrPanic (c : ChunkFile) : OkOrPanic (loopBound c) :=
  (U64.div_okOrPanic _ _).bind fun _ => U64.add_okOrPanic _ _

theorem chunkRange_okOrPanic (c : ChunkFile) (i : Nat) : OkOrPanic (chunkRange c i) :=
  (U64.mul_okOrPanic _ _).bind fun _ => (U64.add_okOrPanic _ _).bind fun _ =>
    (U64.sub_okOrPanic _ _).bind fun _ => .pure _

/-! ## When the chunk size does not divide the file size -/

section
variable {c : ChunkFile} (hwf : c.WellFormed)
include hwf

/-- When `C` does not divide `T`, the loop bound is the chunk count. -/
theorem loopBound_eq_numChunks (hmod : c.totalBytes.toNat % c.chunkSize.toNat ≠ 0)
    (hb : c.totalBytes.toNat / c.chunkSize.toNat + 1 < u64Size) :
    loopBound c = .ok c.numChunks := by
  rw [ChunkFile.numChunks, numChunks_of_mod_ne_zero hwf.chunkSize_pos hmod]
  exact loopBound_eq_ok.mpr ⟨hwf.chunkSize_pos, hb, rfl⟩

/-- Below the chunk count, the loop body reads its digest within bounds and
    computes the spec's range without overflow, as long as `⌈T / C⌉ · C` fits. -/
theorem chunkRange_of_lt {i : Nat} (hi : i < c.numChunks)
    (hfit : c.numChunks * c.chunkSize.toNat < u64Size) :
    chunkRange c i = .ok (i * c.chunkSize.toNat,
      min ((i + 1) * c.chunkSize.toNat) c.totalBytes.toNat - 1) ∧
    i * c.chunkSize.toNat < min ((i + 1) * c.chunkSize.toNat) c.totalBytes.toNat ∧
    ∃ h, index c.chunkHashes i = .ok h := by
  have hC := hwf.chunkSize_pos
  have hlt : i * c.chunkSize.toNat < c.totalBytes.toNat :=
    (mul_lt_iff_lt_numChunks hC).mpr hi
  have hle : (i + 1) * c.chunkSize.toNat ≤ c.numChunks * c.chunkSize.toNat :=
    Nat.mul_le_mul_right _ hi
  rw [Nat.succ_mul] at hle ⊢
  refine ⟨chunkRange_eq_ok.mpr ⟨by omega, by omega, rfl, rfl⟩, by omega, ?_⟩
  exact ⟨_, index_eq_ok.mpr (List.getElem?_eq_getElem (by rw [hwf.length_chunkHashes]; exact hi))⟩

/-- When `C` divides `T`, the loop's last index reads `chunk_hashes` out of bounds. -/
theorem index_loop_last_out_of_bounds (hmod : c.totalBytes.toNat % c.chunkSize.toNat = 0) :
    index c.chunkHashes (c.totalBytes.toNat / c.chunkSize.toNat) =
      .error (.panic "index out of bounds") := by
  have hlen : c.chunkHashes.length = c.totalBytes.toNat / c.chunkSize.toNat := by
    rw [hwf.length_chunkHashes, ChunkFile.numChunks, numChunks_of_mod_eq_zero hwf.chunkSize_pos hmod]
  rw [index, List.getElem?_eq_none (by omega)]

end

/-- The chunk files on which the loop of the sources visits exactly the spec's
    chunks: well formed, with a last chunk shorter than `chunk_size` (so that
    `⌊T / C⌋ + 1 = ⌈T / C⌉`), and with `⌈T / C⌉ · C` within `u64`. -/
structure ChunkFile.LoopExact (c : ChunkFile) : Prop where
  wellFormed : c.WellFormed
  partialLast : c.totalBytes.toNat % c.chunkSize.toNat ≠ 0
  fits : c.numChunks * c.chunkSize.toNat < u64Size

theorem ChunkFile.LoopExact.loopBound_eq {c : ChunkFile} (h : c.LoopExact) :
    loopBound c = .ok c.numChunks := by
  refine loopBound_eq_numChunks h.wellFormed h.partialLast ?_
  have h1 := h.fits
  rw [ChunkFile.numChunks, numChunks_of_mod_ne_zero h.wellFormed.chunkSize_pos h.partialLast] at h1
  have : c.totalBytes.toNat / c.chunkSize.toNat + 1 ≤
      (c.totalBytes.toNat / c.chunkSize.toNat + 1) * c.chunkSize.toNat :=
    Nat.le_mul_of_pos_right _ h.wellFormed.chunkSize_pos
  omega

/-- A file with a partial last chunk is not empty, and its last chunk ends at `T`. -/
theorem ChunkFile.LoopExact.numChunks_pos {c : ChunkFile} (h : c.LoopExact) : 0 < c.numChunks := by
  rw [ChunkFile.numChunks, ← mul_lt_iff_lt_numChunks h.wellFormed.chunkSize_pos, Nat.zero_mul]
  exact Nat.pos_of_ne_zero fun h0 => h.partialLast (by simp [h0])

/-! ## The spec's chunks -/

/-- The bytes of chunk `i` form the half-open span `[i·C, min((i+1)·C, T))`, and
    they are exactly the bytes `q < T` with `q / C = i`. -/
theorem mem_chunkSpan_iff {C T i q : Nat} (hC : 0 < C) :
    (i * C ≤ q ∧ q < min ((i + 1) * C) T) ↔ (q / C = i ∧ q < T) := by
  have key : q / C = i ↔ i * C ≤ q ∧ q < i * C + C := by
    rw [← Nat.succ_mul, ← Nat.le_div_iff_mul_le hC, ← Nat.div_lt_iff_lt_mul hC]; omega
  rw [key, Nat.succ_mul]
  omega

end SubfileExchange
