/-
  SubfileExchange.Client.Content

  What a successful `download_subfile` leaves in its output files. Assume that
  the store holds the manifest `m`, that behind every entry there is a
  published file whose chunk file the store holds and on whose chunks the
  digest has no collisions, and that the entries' output files are distinct
  (`Publishes`). Then in every reachable state where `download_subfile` has
  returned `Ok`, the output file of every entry is its published file, byte for
  byte, whatever the endpoints answered and in whatever order the threads ran
  (`reachable_ok_outputs_published`).

  The argument is an invariant over the output files (`ContentInv`). A task only
  writes a prefix of a body that verified against its chunk's digest, at its
  chunk's offset, so an output file only ever holds published bytes and the
  zeros of gaps (`Agrees`); a task that returned `Ok` wrote its whole chunk,
  which later writes keep (`Covers`); an entry returns `Ok` only when every
  task of its index loop returned `Ok`; and `download_subfile` returns `Ok`
  only when every entry did.

  Two entries with one output file break this: creating the second truncates
  the file of the first (`duplicate_names_lose_content`).
-/
import SubfileExchange.Client.Safety

namespace SubfileExchange

/-! ## Files that agree with a published file -/

/-- Every byte of `F` is the byte of `P` at its position, or a zero left in a gap,
    and `F` is no longer than `P`. -/
structure Agrees (P F : Bytes) : Prop where
  length_le : F.length ≤ P.length
  getElem?_eq : ∀ (q : Nat) (x : UInt8), F[q]? = some x → P[q]? = some x ∨ x = 0

/-- `F` holds chunk `i` of `P`, for chunks of `C` bytes. -/
def Covers (P F : Bytes) (C i : Nat) : Prop :=
  ∀ q, i * C ≤ q → q < i * C + C → q < P.length → F[q]? = P[q]?

theorem agrees_nil (P : Bytes) : Agrees P [] := ⟨Nat.zero_le _, by simp⟩

section
variable {P F data : Bytes} {C i : Nat}

/-- A prefix of chunk `i`, written at the chunk's offset, puts `P`'s bytes there. -/
theorem getElem?_of_prefix_chunkOf (hd : data <+: chunkOf P C i) {q : Nat} (h₁ : i * C ≤ q)
    (h₂ : q < i * C + data.length) : data[q - i * C]? = P[q]? := by
  have hlen : data.length ≤ min C (P.length - i * C) := chunkOf_length P C i ▸ hd.length_le
  obtain ⟨x, hx⟩ : ∃ x, data[q - i * C]? = some x := ⟨_, List.getElem?_eq_getElem (by omega)⟩
  rw [hx, ← getElem?_of_prefix hd hx, chunkOf_getElem? _ _ _ _ (by omega), Nat.add_sub_cancel' h₁]

theorem Agrees.writeAt (h : Agrees P F) (hd : data <+: chunkOf P C i) :
    Agrees P (writeAt F (i * C) data) := by
  by_cases hne : data = []
  · subst hne; simpa using h
  have hlen : data.length ≤ min C (P.length - i * C) := chunkOf_length P C i ▸ hd.length_le
  have hpos : 0 < data.length := List.length_pos.mpr hne
  refine ⟨?_, fun q x hq => ?_⟩
  · rw [writeAt_length _ hne]
    exact max_le h.length_le (by omega)
  rw [writeAt_getElem? _ _ hne] at hq
  split_ifs at hq with hw hg
  · exact .inl (by rw [← getElem?_of_prefix_chunkOf hd hw.1 hw.2, hq])
  · exact .inr (Option.some.inj hq).symm
  · exact h.getElem?_eq q x hq

theorem Covers.writeAt {j : Nat} (h : Covers P F C j) (hd : data <+: chunkOf P C i) :
    Covers P (writeAt F (i * C) data) C j := by
  by_cases hne : data = []
  · subst hne; simpa using h
  intro q h₁ h₂ h₃
  have hF := h q h₁ h₂ h₃
  rw [writeAt_getElem? _ _ hne]
  split_ifs with hw hg
  · exact getElem?_of_prefix_chunkOf hd hw.1 hw.2
  · rw [List.getElem?_eq_none hg.1, eq_comm, List.getElem?_eq_none_iff] at hF
    omega
  · exact hF

/-- Writing the whole of chunk `i` at its offset makes the file hold it. -/
theorem covers_writeAt_chunkOf (F : Bytes) : Covers P (writeAt F (i * C) (chunkOf P C i)) C i := by
  intro q h₁ h₂ h₃
  have hlen := chunkOf_length P C i
  by_cases hne : chunkOf P C i = []
  · rw [hne, List.length_nil] at hlen
    omega
  rw [writeAt_getElem? _ _ hne, if_pos ⟨h₁, by omega⟩]
  exact getElem?_of_prefix_chunkOf (List.prefix_refl _) h₁ (by omega)

/-- A file that agrees with `P` and holds each of its chunks is `P`. -/
theorem eq_of_agrees_of_covers (hC : 0 < C) (ha : Agrees P F)
    (hc : ∀ i < numChunks P.length C, Covers P F C i) : F = P := by
  apply List.ext_getElem?
  intro q
  by_cases hq : q < P.length
  · have hspan := (mem_chunkSpan_iff (i := q / C) hC).mpr ⟨rfl, hq⟩
    have hlt := hspan.2
    rw [Nat.add_mul, Nat.one_mul] at hlt
    exact hc _ (div_lt_numChunks hC hq) q hspan.1 (by omega) hq
  · rw [List.getElem?_eq_none (by have := ha.length_le; omega), List.getElem?_eq_none (by omega)]

end

/-! ## The assumptions and the invariant -/

section
variable (env : DownloaderEnv) (m : SubfileManifest) (pub : Nat → PublishedFile env.digest)

/-- The assumptions of the content theorem: the store's manifest is `m`; the chunk
    file of entry `j` is that of the published file `pub j`, on whose chunks the
    digest has no collisions; and no two entries share an output file. -/
structure Publishes : Prop where
  manifest : env.store.manifests env.ipfsHash = some m
  chunkFile : ∀ j f, m.files[j]? = some f → env.store.chunkFiles f.hash = some (pub j).chunkFile
  collisionFree : ∀ j, j < m.files.length → CollisionFree env.digest (pub j).bytes (pub j).chunkFile
  distinct : (m.files.map (outputLocation env)).Nodup

/-- In `files`, the output file of entry `j` exists and satisfies `Q`. -/
def OutputOk (files : List String → Option Bytes) (j : Nat) (Q : Bytes → Prop) : Prop :=
  ∃ f F, m.files[j]? = some f ∧ files (outputLocation env f) = some F ∧ Q F

/-- `Q` survives every write, at its offset, of a prefix of a chunk of entry `j`'s
    published file. -/
def WriteStable (j : Nat) (Q : Bytes → Prop) : Prop :=
  ∀ F i data, data <+: chunkOf (pub j).bytes (pub j).chunkFile.chunkSize.toNat i → Q F →
    Q (writeAt F (i * (pub j).chunkFile.chunkSize.toNat) data)

/-- Going from `files` to `files'` keeps every write-stable property of entry `k`'s
    output file. -/
def FilesKeep (files files' : List String → Option Bytes) (k : Nat) : Prop :=
  ∀ Q, WriteStable env pub k Q → OutputOk env m files k Q → OutputOk env m files' k Q

/-- Entry `k`'s output file agrees with its published file. -/
def EntryAgrees (s : State) (k : Nat) : Prop := OutputOk env m s.files k (Agrees (pub k).bytes)

/-- Entry `k`'s output file holds chunk `i` of its published file. -/
def ChunkHeld (s : State) (k i : Nat) : Prop :=
  OutputOk env m s.files k fun F => Covers (pub k).bytes F (pub k).chunkFile.chunkSize.toNat i

/-- Entry `j`'s output file agrees with its published file and holds every chunk. -/
def EntryDone (s : State) (j : Nat) : Prop :=
  OutputOk env m s.files j fun F => Agrees (pub j).bytes F ∧
    ∀ i < (pub j).chunkFile.numChunks, Covers (pub j).bytes F (pub j).chunkFile.chunkSize.toNat i

/-- Task `t` was spawned for index `i` of entry `k`. -/
def SpawnedAt (s : State) (k t i : Nat) : Prop :=
  ∃ sp, s.spec? t = some sp ∧ sp.file = k ∧ sp.index = i

/-- What the current entry's phase says of its output file and tasks: the tasks
    spawned so far are those of the first indices, in order, and in the joins, as
    long as none failed, the chunks of the tasks joined so far are held. -/
def PhaseContent (s : State) (k : Nat) : FilePhase → Prop
  | .spawning _ c _ _ i n handles =>
    EntryAgrees env m pub s k ∧ loopBound c = .ok n ∧ i ≤ n ∧ handles.length = i ∧
      ∀ j t, handles[j]? = some t → SpawnedAt s k t j
  | .joining handles failed =>
    EntryAgrees env m pub s k ∧ ∃ n, (pub k).chunkFile.numChunks ≤ n ∧ handles.length ≤ n ∧
      (failed = 0 → ∀ i, i + handles.length < n → ChunkHeld env m pub s k i) ∧
      ∀ j t, handles[j]? = some t → SpawnedAt s k t (n - handles.length + j)
  | _ => True

/-- The entries `download_subfile` is past, every one of them having returned `Ok`. -/
def PassedOk : Main → List String → Nat → Prop
  | .file _ k _, incomplete, j => incomplete = [] ∧ j < k
  | .done (.ok ()), _, j => j < m.files.length
  | _, _, _ => False

/-- The invariant of the output files. -/
structure ContentInv (s : State) : Prop where
  tasks : ∀ sp ∈ s.tasks.map Task.spec, EntryAgrees env m pub s sp.file
  returned : ∀ (t : Nat) (task : Task), s.tasks[t]? = some task →
    task.phase = .returned true ∨ task.phase = .finished true →
    ChunkHeld env m pub s task.spec.file task.spec.index
  current : ∀ k ph, s.main = .file m k ph → PhaseContent env m pub s k ph
  passed : ∀ j, PassedOk m s.main s.incomplete j → EntryDone env m pub s j

end

/-! ## What keeps an output file -/

section
variable {env : DownloaderEnv} {m : SubfileManifest} {pub : Nat → PublishedFile env.digest}
  {s s' : State}

theorem outputOk_iff {files : List String → Option Bytes} {j : Nat} {f : FileMetaInfo} {F : Bytes}
    {Q : Bytes → Prop} (hf : m.files[j]? = some f) (hF : files (outputLocation env f) = some F) :
    OutputOk env m files j Q ↔ Q F := by
  constructor
  · rintro ⟨f', F', hf', hF', hQ⟩
    rw [hf] at hf'; cases hf'
    rw [hF] at hF'; cases hF'
    exact hQ
  · exact fun hQ => ⟨f, F, hf, hF, hQ⟩

theorem Publishes.location_ne (hp : Publishes env m pub) {j k : Nat} {f f' : FileMetaInfo}
    (hj : m.files[j]? = some f) (hk : m.files[k]? = some f') (hne : j ≠ k) :
    outputLocation env f ≠ outputLocation env f' := by
  intro heq
  have hj' : (m.files.map (outputLocation env))[j]? = some (outputLocation env f) := by simp [hj]
  have hk' : (m.files.map (outputLocation env))[k]? = some (outputLocation env f') := by simp [hk]
  exact hne (List.getElem?_inj (List.getElem?_eq_some_iff.mp hj').1 hp.distinct
    (by rw [hj', hk', heq]))

theorem Publishes.chunkFile_eq (hp : Publishes env m pub) {j : Nat} {f : FileMetaInfo} {c : ChunkFile}
    (hj : m.files[j]? = some f) (hc : env.store.chunkFiles f.hash = some c) : c = (pub j).chunkFile := by
  rw [hp.chunkFile j f hj] at hc
  exact (Option.some.inj hc).symm

/-- A spawned task writes into its entry's output file, at its chunk's offset. -/
theorem Publishes.spec_eq (hp : Publishes env m pub) {log : List Event} {sp : TaskSpec}
    (hok : SpecOk env log sp) :
    ∃ f, m.files[sp.file]? = some f ∧ sp.path = outputLocation env f ∧
      sp.request.start = sp.index * (pub sp.file).chunkFile.chunkSize.toNat ∧
      sp.chunkFile = (pub sp.file).chunkFile := by
  obtain ⟨m', f, hm', hf, hc, hpath, -⟩ := hok.entry
  cases Option.some.inj (hm'.symm.trans hp.manifest)
  have hcf := hp.chunkFile_eq hf hc
  obtain ⟨-, -, hstart, -⟩ := chunkRange_eq_ok.mp hok.range
  exact ⟨f, hf, hpath, by rw [hstart, hcf], hcf⟩

/-- A body that verifies against a spawned task's digest is the task's chunk of
    its entry's published file. -/
theorem Publishes.body_eq (hp : Publishes env m pub) {log : List Event} {sp : TaskSpec} {b : Bytes}
    (hok : SpecOk env log sp) (hb : verifyChunk env.digest b sp.request.chunkHash = true) :
    b = chunkOf (pub sp.file).bytes (pub sp.file).chunkFile.chunkSize.toNat sp.index := by
  obtain ⟨f, hf, -, -, hcf⟩ := hp.spec_eq hok
  have hhash := hok.hash
  rw [hcf] at hhash
  have hlt : sp.index < (pub sp.file).chunkFile.numChunks := by
    rw [← (pub sp.file).wellFormed.length_chunkHashes]
    exact (List.getElem?_eq_some_iff.mp hhash).1
  exact hp.collisionFree _ (List.getElem?_eq_some_iff.mp hf).1 _ _ _ hlt hhash hb

theorem filesKeep_of_eq {files files' : List String → Option Bytes} (h : files' = files) (k : Nat) :
    FilesKeep env m pub files files' k :=
  fun _ _ ⟨f, F, hf, hF, hQ⟩ => ⟨f, F, hf, h ▸ hF, hQ⟩

/-- A step that changes the files only at entry `j`'s output file keeps the
    output files of the other entries. -/
theorem filesKeep_of_frame (hp : Publishes env m pub) {files files' : List String → Option Bytes}
    {j : Nat} {f : FileMetaInfo} (hj : m.files[j]? = some f)
    (hframe : ∀ p, p ≠ outputLocation env f → files' p = files p) {k : Nat} (hk : k ≠ j) :
    FilesKeep env m pub files files' k :=
  fun _ _ ⟨f', F, hf', hF, hQ⟩ => ⟨f', F, hf', by rw [hframe _ (hp.location_ne hf' hj hk), hF], hQ⟩

/-- A step that writes a prefix of one of entry `j`'s chunks at its offset keeps
    every output file. -/
theorem filesKeep_of_write (hp : Publishes env m pub) {files files' : List String → Option Bytes}
    {j i : Nat} {f : FileMetaInfo} {data : Bytes} (hj : m.files[j]? = some f)
    (hframe : ∀ p, p ≠ outputLocation env f → files' p = files p)
    (hat : ∀ F, files (outputLocation env f) = some F →
      files' (outputLocation env f) = some (writeAt F (i * (pub j).chunkFile.chunkSize.toNat) data))
    (hd : data <+: chunkOf (pub j).bytes (pub j).chunkFile.chunkSize.toNat i) (k : Nat) :
    FilesKeep env m pub files files' k := by
  by_cases hk : k = j
  · subst hk
    rintro Q hQ ⟨f', F, hf', hF, hq⟩
    rw [hj] at hf'; cases hf'
    exact ⟨f, _, hj, hat F hF, hQ F i data hd hq⟩
  · exact filesKeep_of_frame hp hj hframe hk

theorem agrees_writeStable (k : Nat) : WriteStable env pub k (Agrees (pub k).bytes) :=
  fun _ _ _ hd h => h.writeAt hd

theorem covers_writeStable (k i : Nat) :
    WriteStable env pub k fun F => Covers (pub k).bytes F (pub k).chunkFile.chunkSize.toNat i :=
  fun _ _ _ hd h => h.writeAt hd

theorem FilesKeep.entryAgrees {k : Nat} (h : FilesKeep env m pub s.files s'.files k) :
    EntryAgrees env m pub s k → EntryAgrees env m pub s' k :=
  h _ (agrees_writeStable k)

theorem FilesKeep.chunkHeld {k i : Nat} (h : FilesKeep env m pub s.files s'.files k) :
    ChunkHeld env m pub s k i → ChunkHeld env m pub s' k i :=
  h _ (covers_writeStable k i)

theorem FilesKeep.entryDone {k : Nat} (h : FilesKeep env m pub s.files s'.files k) :
    EntryDone env m pub s k → EntryDone env m pub s' k :=
  h _ fun _ _ _ hd h => ⟨h.1.writeAt hd, fun i hi => (h.2 i hi).writeAt hd⟩

theorem SpawnedAt.mono (hsp : s.tasks.map Task.spec <+: s'.tasks.map Task.spec) {k t i : Nat}
    (h : SpawnedAt s k t i) : SpawnedAt s' k t i :=
  let ⟨sp, hs, hk, hi⟩ := h
  ⟨sp, spec?_of_prefix hsp hs, hk, hi⟩

theorem PhaseContent.keep {k : Nat} (hk : FilesKeep env m pub s.files s'.files k)
    (hsp : s.tasks.map Task.spec <+: s'.tasks.map Task.spec) {ph : FilePhase}
    (h : PhaseContent env m pub s k ph) : PhaseContent env m pub s' k ph := by
  cases ph with
  | spawning f c eps path i n handles =>
    obtain ⟨ha, hn, hin, hlen, hspawn⟩ := h
    exact ⟨hk.entryAgrees ha, hn, hin, hlen, fun j t ht => (hspawn j t ht).mono hsp⟩
  | joining handles failed =>
    obtain ⟨ha, n, hnc, hlen, hheld, hspawn⟩ := h
    exact ⟨hk.entryAgrees ha, n, hnc, hlen, fun h0 i hi => hk.chunkHeld (hheld h0 i hi),
      fun j t ht => (hspawn j t ht).mono hsp⟩
  | _ => trivial

end

/-! ## Every step keeps the invariant -/

section
variable {env : DownloaderEnv} {m : SubfileManifest} {pub : Nat → PublishedFile env.digest}
  {s s' : State}

/-- A step that changes one task but not its spec, changes the files only in ways
    that keep every output file, and leaves the main task alone keeps the
    invariant, provided the task holds its chunk if it returned `Ok`. -/
theorem ContentInv.of_setTask (hc : ContentInv env m pub s) {t : Nat} {task : Task}
    (ht : s.tasks[t]? = some task) {task' : Task} (htasks : s'.tasks = s.tasks.set t task')
    (hspec : task'.spec = task.spec) (hkeep : ∀ k, FilesKeep env m pub s.files s'.files k)
    (hret : task'.phase = .returned true ∨ task'.phase = .finished true →
      ChunkHeld env m pub s' task.spec.file task.spec.index)
    (hmain : s'.main = s.main) (hinc : s'.incomplete = s.incomplete) : ContentInv env m pub s' := by
  have hspecs : s'.tasks.map Task.spec = s.tasks.map Task.spec := by
    rw [htasks]; exact map_spec_set ht task' hspec
  refine ⟨fun sp hsp => (hkeep _).entryAgrees (hc.tasks sp (hspecs ▸ hsp)),
    fun t' task'' ht' hph => ?_,
    fun k ph hm => (hc.current k ph (hmain ▸ hm)).keep (hkeep k) (hspecs ▸ List.prefix_refl _),
    fun j hj => (hkeep j).entryDone (hc.passed j (by rw [← hmain, ← hinc]; exact hj))⟩
  rw [htasks] at ht'
  by_cases h₁ : t' = t
  · subst h₁
    rw [List.getElem?_set_self (List.getElem?_eq_some_iff.mp ht).1] at ht'
    cases ht'
    rw [hspec]
    exact hret hph
  · rw [List.getElem?_set_ne (Ne.symm h₁)] at ht'
    exact (hkeep _).chunkHeld (hc.returned t' task'' ht' hph)

/-- A move of the main task that changes neither the files nor the tasks keeps the
    invariant when the facts of its new position hold of the old state. -/
theorem ContentInv.of_main (hc : ContentInv env m pub s) (hfiles : s'.files = s.files)
    (htasks : s'.tasks = s.tasks)
    (hcur : ∀ k ph, s'.main = .file m k ph → PhaseContent env m pub s k ph)
    (hpass : ∀ j, PassedOk m s'.main s'.incomplete j → EntryDone env m pub s j) :
    ContentInv env m pub s' :=
  ⟨fun sp hsp => (filesKeep_of_eq hfiles _).entryAgrees (hc.tasks sp (htasks ▸ hsp)),
    fun t task ht hph => (filesKeep_of_eq hfiles _).chunkHeld (hc.returned t task (htasks ▸ ht) hph),
    fun k ph hm => (hcur k ph hm).keep (filesKeep_of_eq hfiles k) (htasks ▸ List.prefix_refl _),
    fun j hj => (filesKeep_of_eq hfiles j).entryDone (hpass j hj)⟩

theorem ContentInv.completeStep (hc : ContentInv env m pub s) {t : Nat}
    (h : completeStep s t = some s') : ContentInv env m pub s' := by
  obtain ⟨task, ht, ⟨hph, rfl⟩ | ⟨-, rfl⟩⟩ := completeStep_eq_some h
  · exact hc.of_setTask ht rfl rfl (filesKeep_of_eq rfl)
      (fun _ => hc.returned t task ht (.inl hph)) rfl rfl
  · exact hc.of_setTask ht rfl rfl (filesKeep_of_eq rfl) (fun h => by simp at h) rfl rfl

theorem Attempt.phase_ne_finished (a : Attempt) (b : Bool) : a.phase ≠ .finished b := by
  cases a <;> simp [Attempt.phase]

/-- A pass of a task writes a prefix of its chunk at the chunk's offset, and when
    it returns `Ok` it has written the whole chunk. -/
theorem ContentInv.taskStep (hp : Publishes env m pub) (hinv : Inv env s)
    (hc : ContentInv env m pub s) {t : Nat} {reply : RangeReply} {io : WriteIo}
    (h : taskStep env s t reply io = some s') : ContentInv env m pub s' := by
  obtain ⟨task, ht, -, ⟨-, hpanic⟩ | ⟨-, hmain, hinc, -, -, htasks, -, hfiles⟩⟩ := taskStep_eq_some h
  · subst hpanic
    exact hc.of_setTask ht rfl rfl (filesKeep_of_eq rfl) (fun h => by simp at h) rfl rfl
  set r := task.spec.request
  set a := attempt env.digest r task.attempts (rangeReplyResult reply) io
  have hmem : task.spec ∈ s.tasks.map Task.spec := List.mem_map_of_mem _ (List.getElem?_mem ht)
  have hok := hinv.specs task.spec hmem
  obtain ⟨f, hf, hpath, hstart, -⟩ := hp.spec_eq hok
  obtain ⟨f', F, hf', hF, -⟩ := hc.tasks task.spec hmem
  rw [hf] at hf'; cases hf'
  have hframe : ∀ p, p ≠ outputLocation env f → s'.files p = s.files p := by
    intro p hne
    rw [hfiles]
    split_ifs
    · rfl
    · rw [writeFile, Function.update_noteq (by rwa [hpath])]
  have hat : ∀ F, s.files (outputLocation env f) = some F → s'.files (outputLocation env f) =
      some (writeAt F (task.spec.index * (pub task.spec.file).chunkFile.chunkSize.toNat) a.written) := by
    intro F hF
    rw [hfiles, ← hstart]
    split_ifs with hw
    · rw [hw, writeAt_nil]; exact hF
    · rw [writeFile, ← hpath, Function.update_same, hpath, hF]; rfl
  have hkeep : ∀ k, FilesKeep env m pub s.files s'.files k := by
    by_cases hw : a.written = []
    · exact filesKeep_of_eq (by rw [hfiles, if_pos hw])
    · obtain ⟨b, -, hv, hpre⟩ := attempt_written hw
      exact filesKeep_of_write hp hf hframe hat (hp.body_eq hok hv ▸ hpre)
  refine hc.of_setTask ht htasks rfl hkeep (fun hph => ?_) hmain hinc
  rcases hph with hph | hph
  · obtain ⟨d, hd⟩ := Attempt.phase_eq_returned_true hph
    have hdc := hp.body_eq hok (attempt_eq_wrote hd).2
    refine ⟨f, _, hf, hat F hF, ?_⟩
    rw [show a.written = d by rw [hd]; rfl, hdc]
    exact covers_writeAt_chunkOf F
  · exact absurd hph (Attempt.phase_ne_finished _ _)

theorem ContentInv.probeStep (hc : ContentInv env m pub s) {j : Nat} {sr opr : ProbeReply}
    (h : probeStep env s j sr opr = some s') : ContentInv env m pub s' := by
  obtain ⟨m₀, k, f, c, b, pending, results, url, hm, -, rfl⟩ := probeStep_eq_some h
  exact hc.of_main rfl rfl (fun k' ph h => by cases h; trivial)
    fun j hj => hc.passed j (by rw [hm]; exact hj)

theorem Inv.manifest_eq (hp : Publishes env m pub) (hinv : Inv env s) {m₀ : SubfileManifest}
    {k : Nat} {ph : FilePhase} (hm : s.main = .file m₀ k ph) : m₀ = m := by
  have hmain := hinv.main
  rw [hm] at hmain
  exact Option.some.inj (hmain.1.symm.trans hp.manifest)

/-- Handles already joined leave the others at their indices. -/
theorem spawnedAt_tail {k n t : Nat} {handles : List Nat} (hlen : (t :: handles).length ≤ n)
    (hspawn : ∀ j t', (t :: handles)[j]? = some t' →
      SpawnedAt s k t' (n - (t :: handles).length + j)) :
    ∀ j t', handles[j]? = some t' → SpawnedAt s k t' (n - handles.length + j) := by
  intro j t' ht'
  have := hspawn (j + 1) t' (by simpa using ht')
  rw [List.length_cons] at hlen this
  rwa [show n - (handles.length + 1) + (j + 1) = n - handles.length + j by omega] at this

/-- Creating entry `k`'s output file keeps every earlier entry's file, and the
    tasks and the passed entries all belong to earlier entries. -/
theorem ContentInv.of_create (hp : Publishes env m pub) (hinv : Inv env s)
    (hc : ContentInv env m pub s) {k : Nat} {f : FileMetaInfo} {c : ChunkFile}
    {eps : List IndexerEndpoint} (hm : s.main = .file m k (.create f c eps)) {main : Main}
    (hcur : ∀ k' ph, main = .file m k' ph → PhaseContent env m pub
      { s with main := main, files := Function.update s.files (outputLocation env f) (some []) } k' ph)
    (hpass : ∀ j, PassedOk m main s.incomplete j → PassedOk m s.main s.incomplete j ∧ j < k) :
    ContentInv env m pub
      { s with main := main, files := Function.update s.files (outputLocation env f) (some []) } := by
  have hmain := hinv.main
  rw [hm] at hmain
  obtain ⟨-, hord, hf, -⟩ := hmain
  have hkeep : ∀ j, j < k →
      FilesKeep env m pub s.files (Function.update s.files (outputLocation env f) (some [])) j :=
    fun j hj => filesKeep_of_frame hp hf (fun p hne => Function.update_noteq hne _ _) (Nat.ne_of_lt hj)
  have hlt : ∀ sp ∈ s.tasks.map Task.spec, sp.file < k := fun sp hsp =>
    (hord.2 sp hsp).resolve_right fun h => by simp [FilePhase.spawned] at h
  exact ⟨fun sp hsp => (hkeep _ (hlt sp hsp)).entryAgrees (hc.tasks sp hsp),
    fun t task ht hph => (hkeep _ (hlt _ (List.mem_map_of_mem _ (List.getElem?_mem ht)))).chunkHeld
      (hc.returned t task ht hph), hcur,
    fun j hj => (hkeep j (hpass j hj).2).entryDone (hc.passed j (hpass j hj).1)⟩

/-- The main task: creating entry `k`'s output file leaves the other entries'
    files alone, spawning keeps the handles in index order, a join adds the
    joined task's chunk, and an entry returns `Ok` only with every chunk held. -/
theorem ContentInv.mainMove (hp : Publishes env m pub) (hinv : Inv env s)
    (hc : ContentInv env m pub s) (hmove : MainMove env s s') : ContentInv env m pub s' := by
  cases hmove with
  | fetchManifest =>
    exact hc.of_main rfl rfl (fun k ph h => by cases h; trivial) fun j hj => absurd hj.2 (Nat.not_lt_zero _)
  | fetchManifestFailed | fetchChunkFilePanicked | createFailed | spawnPanicked =>
    exact hc.of_main rfl rfl (fun k ph h => by cases h) fun j hj => nomatch hj
  | fetchChunkFileFailed | spawnFailed | joinMetadataFailed | joinPanicked =>
    exact hc.of_main rfl rfl (fun k ph h => by cases h; trivial)
      fun j hj => (List.append_ne_nil_of_right_ne_nil _ (List.cons_ne_nil _ _) hj.1).elim
  | finish hm hnone =>
    cases hinv.manifest_eq hp hm
    refine hc.of_main rfl rfl (fun k ph h => by cases h) fun j hj => ?_
    by_cases hinc : s.incomplete = []
    · simp only [hinc, if_true, PassedOk] at hj
      exact hc.passed j (by rw [hm]; exact ⟨hinc, by have := List.getElem?_eq_none_iff.mp hnone; omega⟩)
    · simp [hinc, PassedOk] at hj
  | fetchChunkFile hm | probesDone hm =>
    exact hc.of_main rfl rfl (fun k ph h => by cases h; trivial)
      fun j hj => hc.passed j (by rw [hm]; exact hj)
  | @create m₀ k f c eps n hm hn =>
    cases hinv.manifest_eq hp hm
    refine hc.of_create hp hinv hm (fun k' ph h => ?_) fun j hj => ⟨by rw [hm]; exact hj, hj.2⟩
    cases h
    have hmain := hinv.main
    rw [hm] at hmain
    exact ⟨⟨f, [], hmain.2.2.1, Function.update_same _ _ _, agrees_nil _⟩, hn, Nat.zero_le _, rfl, by simp⟩
  | createLoopPanicked hm =>
    cases hinv.manifest_eq hp hm
    exact hc.of_create hp hinv hm (fun k' ph h => by cases h) fun j hj => nomatch hj
  | @spawn m₀ k f c eps path i n draw handles r hm hi hr =>
    cases hinv.manifest_eq hp hm
    obtain ⟨ha, hn, hin, hlen, hspawn⟩ := hc.current _ _ hm
    have hsp : s.tasks.map Task.spec <+:
        (s.tasks ++ [({ spec := ⟨k, i, c, path, r⟩, attempts := 0, phase := .running } : Task)]).map
          Task.spec := by
      rw [List.map_append]; exact List.prefix_append _ _
    refine ⟨fun sp hsp' => ?_, fun t task ht hph => ?_, fun k' ph h => ?_,
      fun j hj => hc.passed j (by rw [hm]; exact hj)⟩
    · rcases mem_map_concat hsp' with hsp' | rfl
      · exact hc.tasks sp hsp'
      · exact ha
    · rcases getElem?_concat_eq_some ht with ht | ⟨-, rfl⟩
      · exact hc.returned t task ht hph
      · simp at hph
    · cases h
      refine ⟨ha, hn, hi, by rw [List.length_append, hlen]; rfl, fun j t ht => ?_⟩
      rcases getElem?_concat_eq_some ht with ht | ⟨rfl, rfl⟩
      · exact (hspawn j t ht).mono hsp
      · exact ⟨⟨k, i, c, path, r⟩, by rw [State.spec?, List.getElem?_concat_length]; rfl, rfl, hlen.symm⟩
  | @loopDone m₀ k f c eps path i n handles hm hi =>
    cases hinv.manifest_eq hp hm
    refine hc.of_main rfl rfl (fun k' ph h => ?_) fun j hj => hc.passed j (by rw [hm]; exact hj)
    cases h
    obtain ⟨ha, hn, hin, hlen, hspawn⟩ := hc.current _ _ hm
    have hmain := hinv.main
    rw [hm] at hmain
    obtain ⟨-, -, hf, hcf, -⟩ := hmain
    refine ⟨ha, n, hp.chunkFile_eq hf hcf ▸ numChunks_le_of_loopBound hn, by omega,
      fun _ i' hi' => absurd hi' (by omega), fun j t ht => ?_⟩
    rw [show n - handles.length + j = j by omega]
    exact hspawn j t ht
  | @joinedAll m₀ k failed hm =>
    cases hinv.manifest_eq hp hm
    split_ifs with h0
    · refine hc.of_main rfl rfl (fun k' ph h => by cases h; trivial) fun j hj => ?_
      obtain ⟨hinc, hj⟩ := hj
      rcases Nat.lt_succ_iff_lt_or_eq.mp hj with hj | rfl
      · exact hc.passed j (by rw [hm]; exact ⟨hinc, hj⟩)
      · obtain ⟨⟨f, F, hf, hF, hagree⟩, n, hnc, -, hheld, -⟩ := hc.current _ _ hm
        exact ⟨f, F, hf, hF, hagree, fun i hi =>
          (outputOk_iff hf hF).mp (hheld h0 i (by simp only [List.length_nil]; omega))⟩
    · exact hc.of_main rfl rfl (fun k' ph h => by cases h; trivial)
        fun j hj => (List.append_ne_nil_of_right_ne_nil _ (List.cons_ne_nil _ _) hj.1).elim
  | @joinOk m₀ k t failed handles task hm ht hph =>
    cases hinv.manifest_eq hp hm
    refine hc.of_main rfl rfl (fun k' ph h => ?_) fun j hj => hc.passed j (by rw [hm]; exact hj)
    cases h
    obtain ⟨ha, n, hnc, hlen, hheld, hspawn⟩ := hc.current _ _ hm
    obtain ⟨sp, hsp, hfile, hidx⟩ := hspawn 0 t List.getElem?_cons_zero
    have htask : task.spec = sp := by simpa [State.spec?, ht] using hsp
    rw [List.length_cons] at hlen hidx
    refine ⟨ha, n, hnc, by omega, fun h0 i hi => ?_, spawnedAt_tail (by simpa using hlen) hspawn⟩
    by_cases hlast : i + (handles.length + 1) < n
    · exact hheld h0 i (by simpa using hlast)
    · have := hc.returned t task ht (.inr hph)
      rwa [htask, hfile, hidx, show n - (handles.length + 1) + 0 = i by omega] at this
  | @joinErr m₀ k t failed handles task hm ht hph =>
    cases hinv.manifest_eq hp hm
    refine hc.of_main rfl rfl (fun k' ph h => ?_) fun j hj => hc.passed j (by rw [hm]; exact hj)
    cases h
    obtain ⟨ha, n, hnc, hlen, -, hspawn⟩ := hc.current _ _ hm
    exact ⟨ha, n, hnc, by simp at hlen; omega, fun h0 => absurd h0 (Nat.succ_ne_zero _),
      spawnedAt_tail hlen hspawn⟩

theorem ContentInv.step (hp : Publishes env m pub) (hinv : Inv env s) (hc : ContentInv env m pub s)
    {c : Choice} (h : step env s c = some s') : ContentInv env m pub s' := by
  cases c with
  | main => exact hc.mainMove hp hinv (mainStep_move h)
  | probe => exact hc.probeStep h
  | task => exact hc.taskStep hp hinv h
  | complete => exact hc.completeStep h

theorem ContentInv.initial (blocklist : List String) (pending : String → List Nat)
    (files : List String → Option Bytes) :
    ContentInv env m pub (.initial blocklist pending files) :=
  ⟨nofun, fun _ _ h => by simp [State.initial] at h, nofun, fun _ h => h.elim⟩

theorem Reachable.contentInv (hp : Publishes env m pub) (hs : Reachable env s) :
    ContentInv env m pub s := by
  induction hs with
  | initial => exact .initial _ _ _
  | step hs hstep ih => exact ih.step hp hs.inv hstep

end

/-! ## The output files of a successful download -/

section
variable {env : DownloaderEnv} {m : SubfileManifest} {pub : Nat → PublishedFile env.digest}
  {s : State}

/-- In every reachable state where `download_subfile` has returned `Ok`, the
    output file of every entry is its published file. -/
theorem reachable_ok_outputs_published (hp : Publishes env m pub) (hs : Reachable env s)
    (hok : s.main = .done (.ok ())) {j : Nat} {f : FileMetaInfo} (hj : m.files[j]? = some f) :
    s.files (outputLocation env f) = some (pub j).bytes := by
  obtain ⟨f', F, hf', hF, ha, hcov⟩ :=
    (hs.contentInv hp).passed j (by rw [hok]; exact (List.getElem?_eq_some_iff.mp hj).1)
  rw [hj] at hf'
  cases hf'
  rw [hF, eq_of_agrees_of_covers (pub j).wellFormed.chunkSize_pos ha fun i hi =>
    hcov i (by rwa [ChunkFile.numChunks, (pub j).totalBytes_eq])]

theorem exampleEnv_publishes :
    Publishes (exampleEnv ["http://a"]) (exampleManifest "a.bin") fun _ => examplePublished where
  manifest := rfl
  chunkFile j f hj := by
    match j, hj with
    | 0, hj => cases hj; rfl
  collisionFree _ _ := examplePublished.collisionFree_of_injective exampleDigest_injective
  distinct := by decide

theorem reachable_ok_outputs_published_example :
    ∃ s, Publishes (exampleEnv ["http://a"]) (exampleManifest "a.bin") (fun _ => examplePublished) ∧
      Reachable (exampleEnv ["http://a"]) s ∧ s.main = .done (.ok ()) ∧
      (exampleManifest "a.bin").files[0]? = some ⟨"a.bin", "c"⟩ ∧
      s.files (outputLocation (exampleEnv ["http://a"]) ⟨"a.bin", "c"⟩) = some examplePublished.bytes := by
  obtain ⟨s, hs, hok⟩ := (exampleStart_reachable (exampleEnv ["http://a"])).exists_of_run exampleRun
    (fun s => decide (s.main = .done (.ok ()))) (by decide)
  have hok := of_decide_eq_true hok
  have hj : (exampleManifest "a.bin").files[0]? = some ⟨"a.bin", "c"⟩ := rfl
  exact ⟨s, exampleEnv_publishes, hs, hok, hj, reachable_ok_outputs_published exampleEnv_publishes hs hok hj⟩

end

/-- A store whose manifest `m` lists `a.bin` twice: with the chunk file of the
    bytes `0, 1, 2, 3, 4`, and with that of the bytes `23, 24, 25`. -/
def duplicateStore : IpfsStore where
  manifests h := if h = "m" then some ⟨[⟨"a.bin", "c"⟩, ⟨"a.bin", "d"⟩], "", "", "", "", ⟨0, none⟩⟩
    else none
  chunkFiles h := if h = "c" then some exampleChunkFile
    else if h = "d" then some ⟨"a.bin", 3, 4, ["xyz"]⟩ else none

/-- Two entries named `a.bin`: the download returns `Ok`, with an injective digest,
    and the output file holds the second entry's bytes, not those the first
    entry's chunk file publishes. -/
theorem duplicate_names_lose_content :
    Function.Injective exampleDigest ∧
    duplicateStore.chunkFiles "c" = some examplePublished.chunkFile ∧
    ∃ s, Reachable ⟨exampleDigest, duplicateStore, "m", ["http://a"], "out", some "Bearer t", 1, ["home"]⟩ s ∧
      s.main = .done (.ok ()) ∧ s.files ["home", "out", "a.bin"] = some [23, 24, 25] ∧
      [23, 24, 25] ≠ examplePublished.bytes := by
  obtain ⟨s, hs, hp⟩ := (exampleStart_reachable
    ⟨exampleDigest, duplicateStore, "m", ["http://a"], "out", some "Bearer t", 1, ["home"]⟩).exists_of_run
    (exampleSpawn 1 (fun _ => 0) ++ [.task 0 (chunkReply 0) .ok, .task 1 (chunkReply 1) .ok,
      .complete 0, .complete 1, .main true 0, .main true 0, .main true 0,
      .main true 0, .probe 0 servingStatus servingOperator, .main true 0, .main true 0, .main true 0,
      .main true 0, .task 2 (.response 206 true [23, 24, 25]) .ok, .complete 2, .main true 0,
      .main true 0, .main true 0])
    (fun s => decide (s.main = .done (.ok ())) && decide (s.files ["home", "out", "a.bin"] = some [23, 24, 25]))
    (by decide)
  simp only [Bool.and_eq_true, decide_eq_true_eq] at hp
  exact ⟨exampleDigest_injective, rfl, s, hs, hp.1, hp.2, by decide⟩

end SubfileExchange
