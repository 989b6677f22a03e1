/-
  SubfileExchange.Client.Passes

  The chunk tasks of the downloader's state machine against the sequential
  `download_chunk_and_write_to_file` of `Client.Retry`. In the machine a task
  makes one pass per step, any other thread may move between two of its
  passes, and each pass has its own write outcome. Fed the replies the task
  received, in order (`repliesOf`), the sequential loop makes the same passes:
  every pass before the task's current one asked for another whatever a write
  would do, and the pass that ended the task ended the loop the same way
  (`PassesOk`, kept by every step).

  So in every reachable state a running task has made `attempts` passes of the
  loop and the loop goes on from there, and a task that returned has made
  exactly the loop's passes (`reachable_task_sequential`). The replies are the
  `sent` events of the task, whose number `BudgetInv` fixes.
-/
import SubfileExchange.Client.Budget

namespace SubfileExchange

/-! ## The replies of a task -/

/-- The reply of a range request of task `t`. -/
def Event.replyOf (t : Nat) : Event → Option RangeReply
  | .sent t' _ reply => if t' = t then some reply else none
  | _ => none

/-- The replies task `t` received, in order. -/
def repliesOf (log : List Event) (t : Nat) : List RangeReply := log.filterMap (Event.replyOf t)

/-- What the `j`-th call of `request_chunk` returned, fed the replies `rs`. -/
def replyOutcomes (rs : List RangeReply) (j : Nat) : Except String Bytes :=
  rangeReplyResult (rs.getD j .transportError)

theorem length_repliesOf (log : List Event) (t : Nat) :
    (repliesOf log t).length = log.countP (Event.sentBy t) := by
  rw [repliesOf, List.length_filterMap_eq_countP]
  refine List.countP_congr fun e _ => ?_
  cases e <;> simp [Event.replyOf, Event.sentBy]

theorem repliesOf_append (log new : List Event) (t : Nat) :
    repliesOf (log ++ new) t = repliesOf log t ++ repliesOf new t :=
  List.filterMap_append _ _ _

/-- Events that are no request of task `t` add no reply. -/
theorem repliesOf_eq_nil {new : List Event} {t : Nat} (h : ∀ e ∈ new, Event.sentBy t e = false) :
    repliesOf new t = [] := by
  rw [← List.length_eq_zero, length_repliesOf, List.countP_eq_zero]
  exact fun e he => by simp [h e he]

theorem replyOutcomes_append_of_lt {rs : List RangeReply} {j : Nat} (hj : j < rs.length)
    (reply : RangeReply) : replyOutcomes (rs ++ [reply]) j = replyOutcomes rs j := by
  simp [replyOutcomes, List.getElem?_append_left hj]

theorem replyOutcomes_append_length (rs : List RangeReply) (reply : RangeReply) :
    replyOutcomes (rs ++ [reply]) rs.length = rangeReplyResult reply := by
  simp [replyOutcomes]

/-! ## One task against the sequential loop -/

/-- The passes of `task`, fed the replies `rs`, are those of the sequential
    loop: each pass before the current one asked for another whatever a write
    would do, and the pass that ended the task ended the loop as the task's
    phase says. -/
def PassesOk (digest : Bytes → String) (task : Task) (rs : List RangeReply) : Prop :=
  (∀ j < task.attempts, ∀ io, attempt digest task.spec.request j (replyOutcomes rs j) io = .retry) ∧
  ∀ b, task.phase = .returned b ∨ task.phase = .finished b → ∃ io,
    (attempt digest task.spec.request task.attempts (replyOutcomes rs task.attempts) io).phase =
      .returned b

section
variable {digest : Bytes → String} {task : Task} {rs : List RangeReply}

/-- A pass of a running task, with the reply `reply` and the write going as
    `io`, is the loop's next pass. -/
theorem PassesOk.pass (hp : PassesOk digest task rs) (hlen : rs.length = task.attempts)
    (reply : RangeReply) (io : WriteIo) :
    PassesOk digest { task with
      attempts := if attempt digest task.spec.request task.attempts (rangeReplyResult reply) io = .retry
        then task.attempts + 1 else task.attempts
      phase := (attempt digest task.spec.request task.attempts (rangeReplyResult reply) io).phase }
      (rs ++ [reply]) := by
  have hold : ∀ j < task.attempts, ∀ io,
      attempt digest task.spec.request j (replyOutcomes (rs ++ [reply]) j) io = .retry :=
    fun j hj => by rw [replyOutcomes_append_of_lt (hlen ▸ hj)]; exact hp.1 j hj
  have hnew : replyOutcomes (rs ++ [reply]) task.attempts = rangeReplyResult reply :=
    hlen ▸ replyOutcomes_append_length rs reply
  by_cases ha : attempt digest task.spec.request task.attempts (rangeReplyResult reply) io = .retry
  · -- the pass asked for another: one more retry of the loop
    refine ⟨fun j hj io' => ?_, fun b hb => ?_⟩
    · simp only [ha, if_true] at hj
      rcases Nat.lt_succ_iff_lt_or_eq.mp hj with hj | rfl
      · exact hold j hj io'
      · rw [hnew]; exact attempt_retry_of_io ha io'
    · simp [ha, Attempt.phase] at hb
  · -- the pass ended the task, as it ends the loop
    refine ⟨fun j hj => hold j (by simpa [ha] using hj), fun b hb => ⟨io, ?_⟩⟩
    simp only [ha, if_false, hnew]
    rcases hb with hb | hb
    · exact hb
    · exact absurd hb (Attempt.phase_ne_finished _ _)

/-- The completion code changes nothing the loop sees. -/
theorem PassesOk.finish (hp : PassesOk digest task rs) {b : Bool} (hph : task.phase = .returned b) :
    PassesOk digest { task with phase := .finished b } rs :=
  ⟨hp.1, fun b' hb' => hp.2 b' (.inl (by cases hb' <;> simp_all))⟩

end

/-- Every task of the state is the sequential loop fed its replies. -/
def PassesInv (env : DownloaderEnv) (s : State) : Prop :=
  ∀ (t : Nat) (task : Task), s.tasks[t]? = some task → PassesOk env.digest task (repliesOf s.log t)

section
variable {env : DownloaderEnv} {s s' : State}

/-- A pass of task `t'` logs its request and at most writes: the reply is task
    `t'`'s and no other task's. -/
theorem repliesOf_pass {t t' : Nat} (target : String) (reply : RangeReply) {rest : List Event}
    (hrest : ∀ e ∈ rest, ∃ path offset data, e = .wrote t' path offset data) :
    repliesOf (.sent t' target reply :: rest) t = if t' = t then [reply] else [] := by
  have hr : repliesOf rest t = [] := repliesOf_eq_nil fun e he => by
    obtain ⟨_, _, _, rfl⟩ := hrest e he
    rfl
  by_cases h : t' = t <;> simp only [repliesOf, Event.replyOf, List.filterMap_cons, h, if_true,
    if_false] <;> simpa [repliesOf] using hr

theorem PassesInv.step (hp : PassesInv env s) (hb : BudgetInv s) {c : Choice}
    (h : step env s c = some s') : PassesInv env s' := by
  intro t task ht
  cases c with
  | main =>
    have hmove := mainStep_move h
    have hrs : repliesOf s'.log t = repliesOf s.log t := by
      rcases hmove.log_eq with hlog | ⟨_, _, -, hlog⟩ <;> simp [hlog, repliesOf, Event.replyOf]
    rw [hrs]
    rcases hmove.tasks_eq with htasks | ⟨sp, htasks⟩
    · exact hp t task (htasks ▸ ht)
    · rw [htasks] at ht
      rcases getElem?_concat_eq_some ht with ht | ⟨-, rfl⟩
      · exact hp t task ht
      · exact ⟨fun j hj => absurd hj (Nat.not_lt_zero j), fun b hb => by simp at hb⟩
  | probe =>
    obtain ⟨_, _, _, _, _, _, _, _, -, -, rfl⟩ := probeStep_eq_some h
    simpa [repliesOf, Event.replyOf] using hp t task ht
  | task t' reply io =>
    obtain ⟨task₀, ht₀, hrun, ⟨-, rfl⟩ | ⟨-, -, -, -, -, htasks, hlog, -⟩⟩ := taskStep_eq_some h
    · -- the task panics: nothing is sent and the loop is where it was
      rcases getElem?_set_eq_some ht with ⟨rfl, rfl⟩ | ⟨-, ht⟩
      · exact ⟨(hp _ _ ht₀).1, fun b hb => by simp at hb⟩
      · exact hp t task ht
    · rw [htasks] at ht
      rw [hlog, repliesOf_append, repliesOf_pass _ _ (by split_ifs <;> simp)]
      rcases getElem?_set_eq_some ht with ⟨rfl, rfl⟩ | ⟨hne, ht⟩
      · have hlen : (repliesOf s.log t').length = task₀.attempts := by
          rw [length_repliesOf, hb.sent, ht₀]
          simp [Task.sent, hrun]
        rw [if_pos rfl]
        exact (hp _ _ ht₀).pass hlen reply io
      · rw [if_neg hne, List.append_nil]
        exact hp t task ht
  | complete t' =>
    obtain ⟨task₀, ht₀, ⟨hph, rfl⟩ | ⟨hph, rfl⟩⟩ := completeStep_eq_some h <;>
      rcases getElem?_set_eq_some ht with ⟨rfl, rfl⟩ | ⟨-, ht⟩
    · exact (hp _ _ ht₀).finish hph
    · exact hp t task ht
    · exact (hp _ _ ht₀).finish hph
    · exact hp t task ht

theorem Reachable.passesInv (hs : Reachable env s) : PassesInv env s := by
  induction hs with
  | initial => intro t task ht; simp [State.initial] at ht
  | step hs hstep ih => exact ih.step hs.budgetInv hstep

/-- Every chunk task of every reachable state is the sequential
    `download_chunk_and_write_to_file` fed the replies it received. A running
    task has received `attempts` replies, on which the loop retried `attempts`
    times whatever the writes did, and the loop goes on from there. A task that
    returned has received one more, and the loop, with the write going as in the
    task's last pass, ends there as the task did. -/
theorem reachable_task_sequential (hs : Reachable env s) {t : Nat} {task : Task}
    (ht : s.tasks[t]? = some task) :
    (task.phase = .running → (repliesOf s.log t).length = task.attempts ∧ ∀ io,
      downloadChunkAndWriteToFile env.digest task.spec.request (replyOutcomes (repliesOf s.log t)) io 0 =
        List.replicate task.attempts .retry ++ downloadChunkAndWriteToFile env.digest
          task.spec.request (replyOutcomes (repliesOf s.log t)) io task.attempts) ∧
    ∀ b, task.phase = .returned b ∨ task.phase = .finished b →
      (repliesOf s.log t).length = task.attempts + 1 ∧ ∃ io a,
        downloadChunkAndWriteToFile env.digest task.spec.request (replyOutcomes (repliesOf s.log t)) io 0 =
          List.replicate task.attempts .retry ++ [a] ∧ a.phase = .returned b := by
  obtain ⟨hretry, hend⟩ := hs.passesInv t task ht
  have hlen : (repliesOf s.log t).length = task.sent := by
    rw [length_repliesOf, hs.budgetInv.sent, ht]
    rfl
  have hloop : ∀ io, downloadChunkAndWriteToFile env.digest task.spec.request
      (replyOutcomes (repliesOf s.log t)) io 0 = List.replicate task.attempts .retry ++
        downloadChunkAndWriteToFile env.digest task.spec.request
          (replyOutcomes (repliesOf s.log t)) io task.attempts := fun io =>
    (downloadChunkAndWriteToFile_retries fun j hj => by
      rw [Nat.zero_add]; exact hretry j hj io).trans (by rw [Nat.zero_add])
  refine ⟨fun hrun => ⟨by simp [hlen, Task.sent, hrun], hloop⟩, fun b hb => ⟨?_, ?_⟩⟩
  · rcases hb with hb | hb <;> simp [hlen, Task.sent, hb]
  · obtain ⟨io, hio⟩ := hend b hb
    have hne : attempt env.digest task.spec.request task.attempts
        (replyOutcomes (repliesOf s.log t) task.attempts) io ≠ .retry := fun h => by
      rw [h] at hio
      cases hio
    exact ⟨io, _, by rw [hloop io, downloadChunkAndWriteToFile_of_ne_retry hne], hio⟩

/-- After the whole download of `a.bin`, task 1 received one reply, and the
    loop fed it makes one pass and writes, as the task did. -/
theorem reachable_task_sequential_example :
    ∃ s task, Reachable (exampleEnv ["http://a"]) s ∧ s.tasks[1]? = some task ∧
      task.phase = .finished true ∧
      (task.phase = .running → (repliesOf s.log 1).length = task.attempts ∧ ∀ io,
        downloadChunkAndWriteToFile exampleDigest task.spec.request (replyOutcomes (repliesOf s.log 1)) io 0 =
          List.replicate task.attempts .retry ++ downloadChunkAndWriteToFile exampleDigest
            task.spec.request (replyOutcomes (repliesOf s.log 1)) io task.attempts) ∧
      ∀ b, task.phase = .returned b ∨ task.phase = .finished b →
        (repliesOf s.log 1).length = task.attempts + 1 ∧ ∃ io a,
          downloadChunkAndWriteToFile exampleDigest task.spec.request
              (replyOutcomes (repliesOf s.log 1)) io 0 =
            List.replicate task.attempts .retry ++ [a] ∧ a.phase = .returned b := by
  obtain ⟨s, hs, hph⟩ := (exampleStart_reachable (exampleEnv ["http://a"])).exists_of_run exampleRun
    (fun s => decide (s.tasks[1]?.map Task.phase = some (.finished true))) (by decide)
  obtain ⟨task, ht, hfin⟩ := Option.map_eq_some'.mp (of_decide_eq_true hph)
  exact ⟨s, task, hs, ht, hfin, reachable_task_sequential hs ht⟩

end

end SubfileExchange
