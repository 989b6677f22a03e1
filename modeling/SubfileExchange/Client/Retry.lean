/-
  SubfileExchange.Client.Retry

  One chunk's download (`request_chunk`, `download_chunk_and_write_to_file`).
  `request_chunk` sends the range as `bytes=<start>-<end>` in a `Content-Range`
  header, names the file in a `file_hash` header, and panics when no token is
  configured (`auth_token.expect`). A reply counts only with a 2xx status and a
  `Content-Range` header.

  The loop calls `request_chunk`, writes the first body that verifies at
  `start` and returns, and otherwise gives up after `max(max_retry, 1)` calls.
  `attempt` is one pass of the loop body, shared with the downloader's state
  machine (`Client.Downloader`), whose tasks take one pass per step.
  `downloadChunkAndWriteToFile` runs the passes against a sequence of outcomes;
  its termination measure is the source's own, `max_retry - attempts`.
-/
import SubfileExchange.Client.Request
import SubfileExchange.Http

namespace SubfileExchange

/-! ## `request_chunk` -/

/-- The header `request_chunk` names the file with. -/
def fileHashHeader : String := "file_hash"

/-- `format!("bytes={}-{}", start, end)`. -/
def rangeText (start end_ : Nat) : String := "bytes=" ++ toString start ++ "-" ++ toString end_

/-- The headers `request_chunk` sends with the token `t`. -/
def chunkHeaders (r : DownloadRangeRequest) (t : String) : Headers :=
  [(fileHashHeader, r.fileHash), (contentRangeHeader, rangeText r.start r.end_), (authorizationHeader, t)]

/-- The target and headers of the request `request_chunk` sends; without a token
    the `expect` panics before anything is sent. -/
def chunkRequest (r : DownloadRangeRequest) : Except Failure (String × Headers) :=
  match r.authToken with
  | some t => .ok (r.queryEndpoint, chunkHeaders r t)
  | none => .error (.panic "No payment nor auth token")

theorem chunkRequest_eq_ok {r : DownloadRangeRequest} {x : String × Headers} :
    chunkRequest r = .ok x ↔ ∃ t, r.authToken = some t ∧ x = (r.queryEndpoint, chunkHeaders r t) := by
  unfold chunkRequest
  split <;> simp_all [eq_comm]

theorem chunkRequest_of_none {r : DownloadRangeRequest} (h : r.authToken = none) :
    chunkRequest r = .error (.panic "No payment nor auth token") := by
  simp [chunkRequest, h]

/-- What `request_chunk` returns for the reply to its request. -/
def rangeReplyResult : RangeReply → Except String Bytes
  | .transportError => .error "error sending request"
  | .response status contentRange body =>
    if isSuccess status && contentRange then .ok body
    else .error ("Range request failed: Server does not support range requests or the request failed: " ++
      toString status)

@[simp] theorem rangeReplyResult_eq_ok {reply : RangeReply} {b : Bytes} :
    rangeReplyResult reply = .ok b ↔ ∃ status, reply = .response status true b ∧ isSuccess status = true := by
  cases reply with
  | transportError => simp [rangeReplyResult]
  | response status cr body =>
    by_cases h : isSuccess status = true <;> cases cr <;> simp [rangeReplyResult, h, and_assoc]

/-! ## One pass of the loop -/

/-- How the `seek` and `write_all` of a verified chunk went: the whole chunk was
    written, or the call failed after the first `n` bytes (`0` for the seek). -/
inductive WriteIo where
  | ok
  | fail (n : Nat)
  deriving DecidableEq, Repr

/-- The end of one pass of the loop body. -/
inductive Attempt where
  /-- The body verified and was written: the call returns `Ok`. -/
  | wrote (data : Bytes)
  /-- The body verified and the seek or the write failed after `written`: `Err`. -/
  | writeFailed (written : Bytes)
  /-- No verified body; the loop sleeps and calls again. -/
  | retry
  /-- No verified body and `attempts` reached `max_retry`: `Err`. -/
  | exhausted
  deriving DecidableEq, Repr

/-- One pass of the loop body, the `attempts`-th call of `request_chunk` having
    returned `outcome`. -/
def attempt (digest : Bytes → String) (r : DownloadRangeRequest) (attempts : Nat)
    (outcome : Except String Bytes) (io : WriteIo) : Attempt :=
  let next := if attempts + 1 ≥ r.maxRetry then Attempt.exhausted else .retry
  match outcome with
  | .ok data =>
    if verifyChunk digest data r.chunkHash then
      match io with
      | .ok => .wrote data
      | .fail n => .writeFailed (data.take n)
    else next
  | .error _ => next

/-- The bytes a pass writes at `start`. -/
def Attempt.written : Attempt → Bytes
  | .wrote data => data
  | .writeFailed written => written
  | _ => []

/-- What the call returns when the pass ends it. -/
def Attempt.result : Attempt → Option (Except String Unit)
  | .wrote _ => some (.ok ())
  | .writeFailed _ => some (.error "failed to write whole buffer")
  | .retry => none
  | .exhausted => some (.error "Max retry attempts reached for chunk download")

/-- Whether an outcome is a body that verifies. -/
def isVerified (digest : Bytes → String) (chunkHash : String) : Except String Bytes → Bool
  | .ok b => verifyChunk digest b chunkHash
  | .error _ => false

theorem isVerified_eq_true {digest : Bytes → String} {chunkHash : String} {o : Except String Bytes} :
    isVerified digest chunkHash o = true ↔ ∃ b, o = .ok b ∧ verifyChunk digest b chunkHash = true := by
  cases o <;> simp [isVerified]

/-- What the pass that gets a verified body does. -/
def verifiedPass (data : Bytes) : WriteIo → Attempt
  | .ok => .wrote data
  | .fail n => .writeFailed (data.take n)

section
variable {digest : Bytes → String} {r : DownloadRangeRequest} {attempts : Nat}
  {outcome : Except String Bytes} {io : WriteIo}

theorem attempt_of_verified {data : Bytes} (h : verifyChunk digest data r.chunkHash = true) :
    attempt digest r attempts (.ok data) io = verifiedPass data io := by
  cases io <;> simp [attempt, h, verifiedPass]

theorem attempt_of_unverified (h : isVerified digest r.chunkHash outcome = false) :
    attempt digest r attempts outcome io =
      if attempts + 1 ≥ r.maxRetry then .exhausted else .retry := by
  cases outcome with
  | error => rfl
  | ok data => simp_all [attempt, isVerified]

/-- A pass asks for another only below `max_retry`. -/
theorem attempt_retry (h : attempt digest r attempts outcome io = .retry) :
    attempts + 1 < r.maxRetry := by
  cases hv : isVerified digest r.chunkHash outcome with
  | false =>
    rw [attempt_of_unverified hv] at h
    split_ifs at h with hge
    omega
  | true =>
    cases outcome with
    | error => cases hv
    | ok b =>
      rw [attempt_of_verified hv] at h
      cases io <;> cases h

/-- Whether a pass asks for another does not depend on how a write would go. -/
theorem attempt_retry_of_io (h : attempt digest r attempts outcome io = .retry) (io' : WriteIo) :
    attempt digest r attempts outcome io' = .retry := by
  cases hv : isVerified digest r.chunkHash outcome with
  | false => rwa [attempt_of_unverified hv] at h ⊢
  | true =>
    cases outcome with
    | error => cases hv
    | ok b =>
      rw [attempt_of_verified hv] at h
      cases io <;> cases h

/-- A pass that ends the call with `Ok` wrote the whole of a body that verifies. -/
theorem attempt_eq_wrote {data : Bytes} (h : attempt digest r attempts outcome io = .wrote data) :
    outcome = .ok data ∧ verifyChunk digest data r.chunkHash = true := by
  cases hv : isVerified digest r.chunkHash outcome with
  | false =>
    rw [attempt_of_unverified hv] at h
    split_ifs at h
  | true =>
    cases outcome with
    | error => cases hv
    | ok b =>
      rw [attempt_of_verified hv] at h
      cases io <;> cases h
      exact ⟨rfl, hv⟩

/-- A pass writes only a prefix of a body that verifies. -/
theorem attempt_written (h : (attempt digest r attempts outcome io).written ≠ []) :
    ∃ b, outcome = .ok b ∧ verifyChunk digest b r.chunkHash = true ∧
      (attempt digest r attempts outcome io).written <+: b := by
  cases hv : isVerified digest r.chunkHash outcome with
  | false =>
    rw [attempt_of_unverified hv] at h
    split_ifs at h <;> simp [Attempt.written] at h
  | true =>
    cases outcome with
    | error => cases hv
    | ok b =>
      rw [attempt_of_verified hv]
      refine ⟨b, rfl, hv, ?_⟩
      cases io
      · exact List.prefix_refl _
      · exact List.take_prefix _ _

end

/-! ## The loop -/

/-- `download_chunk_and_write_to_file` from `attempts` on, `outcomes k` being what
    the `k`-th call of `request_chunk` returns and `io` how a write goes: the
    passes it makes, one per call. -/
def downloadChunkAndWriteToFile (digest : Bytes → String) (r : DownloadRangeRequest)
    (outcomes : Nat → Except String Bytes) (io : WriteIo) (attempts : Nat) : List Attempt :=
  match h : attempt digest r attempts (outcomes attempts) io with
  | .retry => .retry :: downloadChunkAndWriteToFile digest r outcomes io (attempts + 1)
  | a => [a]
termination_by r.maxRetry - attempts
decreasing_by have := attempt_retry h; omega

section
variable {digest : Bytes → String} {r : DownloadRangeRequest} {outcomes : Nat → Except String Bytes}
  {io : WriteIo}

theorem downloadChunkAndWriteToFile_of_retry {a : Nat}
    (h : attempt digest r a (outcomes a) io = .retry) :
    downloadChunkAndWriteToFile digest r outcomes io a =
      .retry :: downloadChunkAndWriteToFile digest r outcomes io (a + 1) := by
  rw [downloadChunkAndWriteToFile]
  split <;> simp_all

theorem downloadChunkAndWriteToFile_of_ne_retry {a : Nat}
    (h : attempt digest r a (outcomes a) io ≠ .retry) :
    downloadChunkAndWriteToFile digest r outcomes io a = [attempt digest r a (outcomes a) io] := by
  rw [downloadChunkAndWriteToFile]
  split <;> simp_all

/-- From pass `a`, `m` passes that each ask for another come first. -/
theorem downloadChunkAndWriteToFile_retries :
    ∀ {m a : Nat}, (∀ j < m, attempt digest r (a + j) (outcomes (a + j)) io = .retry) →
      downloadChunkAndWriteToFile digest r outcomes io a =
        List.replicate m .retry ++ downloadChunkAndWriteToFile digest r outcomes io (a + m)
  | 0, _, _ => rfl
  | m + 1, a, h => by
    rw [downloadChunkAndWriteToFile_of_retry (a := a) (by simpa using h 0 m.succ_pos),
      downloadChunkAndWriteToFile_retries (m := m) (a := a + 1) fun j hj => by
        rw [Nat.add_right_comm]; exact h (j + 1) (by omega)]
    simp [List.replicate_succ, Nat.add_right_comm, Nat.add_assoc]

end

end SubfileExchange
