/-
  SubfileExchange.Client.Probe

  The availability check (`check_availability`, `check_endpoint_availability`,
  `add_to_indexer_blocklist`). `check_availability` takes a copy of the
  blocklist, probes every static endpoint not in it, in parallel, and keeps the
  endpoints whose probe succeeded, in the order the probes completed. A probe
  asks `<url>/status` and, only when that lists the manifest hash, `<url>/operator`;
  any failure puts `url` in the blocklist.

  `checkEndpointAvailability` is a probe as a function of the two replies;
  the parallel probes, and the blocklist they share, are steps of the
  downloader's state machine (`Client.Downloader`).
-/
import SubfileExchange.Client.Request
import SubfileExchange.Http

namespace SubfileExchange

/-- The endpoints `check_availability` probes: the static endpoints not in its copy
    of the blocklist, in order. -/
def filteredEndpoints (staticEndpoints blocklist : List String) : List String :=
  staticEndpoints.filter (· ∉ blocklist)

theorem not_mem_of_mem_filteredEndpoints {staticEndpoints blocklist : List String} {url : String}
    (h : url ∈ filteredEndpoints staticEndpoints blocklist) : url ∉ blocklist := by
  simpa [filteredEndpoints] using (List.mem_filter.mp h).2

/-- `check_endpoint_availability(url)`, `statusReply` answering `<url>/status` and
    `operatorReply` answering `<url>/operator`. -/
def checkEndpointAvailability (ipfsHash url : String) (statusReply operatorReply : ProbeReply) :
    Except String IndexerEndpoint :=
  match statusReply with
  | .transportError => .error "Status request failed."
  | .response status body =>
    if !isSuccess status then .error "Status request failed."
    else match body.decodeStrings with
      | none => .error "Status response parse error."
      | some files =>
        if !files.contains ipfsHash then
          .error ("IPFS hash not found in files served at " ++ url ++ "/status")
        else match operatorReply with
          | .transportError => .error "Operator request failed."
          | .response status body =>
            if !isSuccess status then .error "Operator request failed."
            else match body.decodeOperator with
              | some publicKey => .ok (publicKey, url)
              | none => .error "Operator response parse error."

/-- A probe succeeds exactly when `/status` answers with a 2xx status and a string
    array holding the manifest hash, and `/operator` with a 2xx status and an
    operator; the endpoint is that operator's key with the probed url. -/
theorem checkEndpointAvailability_eq_ok {ipfsHash url : String} {sr opr : ProbeReply}
    {e : IndexerEndpoint} :
    checkEndpointAvailability ipfsHash url sr opr = .ok e ↔
      ∃ status files status' publicKey,
        sr = .response status (.strings files) ∧ isSuccess status = true ∧ ipfsHash ∈ files ∧
        opr = .response status' (.operator publicKey) ∧ isSuccess status' = true ∧
        e = (publicKey, url) := by
  constructor
  · intro h
    unfold checkEndpointAvailability at h
    split at h
    · cases h
    rename_i status body
    split_ifs at h with hs
    split at h
    · cases h
    rename_i files hfiles
    split_ifs at h with hf
    split at h
    · cases h
    rename_i status' body'
    split_ifs at h with hs'
    split at h
    · rename_i pk hpk
      cases h
      exact ⟨status, files, status', pk, by simp_all, by simpa using hs, by simpa using hf,
        by simp_all, by simpa using hs', rfl⟩
    · cases h
  · rintro ⟨status, files, status', pk, rfl, hs, hf, rfl, hs', rfl⟩
    simp [checkEndpointAvailability, Body.decodeStrings, Body.decodeOperator, hs, hf, hs']

/-- The requests a probe sends: `/status` always, `/operator` when `/status` listed
    the manifest hash. -/
def probeTargets (ipfsHash url : String) (statusReply : ProbeReply) : List String :=
  match statusReply with
  | .response status (.strings files) =>
    if isSuccess status && files.contains ipfsHash then [url ++ "/status", url ++ "/operator"]
    else [url ++ "/status"]
  | _ => [url ++ "/status"]

/-- A probe only contacts its own url. -/
theorem probeTargets_prefix {ipfsHash url : String} {sr : ProbeReply} {target : String}
    (h : target ∈ probeTargets ipfsHash url sr) : url.data <+: target.data := by
  have key : ∀ p : String, url.data <+: (url ++ p).data := fun p => by
    simp
  unfold probeTargets at h
  split at h
  · split_ifs at h <;> simp only [List.mem_cons, List.not_mem_nil, or_false] at h <;>
      rcases h with rfl | rfl <;> exact key _
  · simp only [List.mem_singleton] at h
    subst h
    exact key _

end SubfileExchange
