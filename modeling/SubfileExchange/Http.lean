/-
  SubfileExchange.Http

  The HTTP vocabulary the server and the downloader share: requests and
  responses as the server's handlers see them, and the two views the
  downloader has of an endpoint's answers.

  Header names are lower case, as `http::HeaderMap` stores them, and a header
  lookup returns the first value (`HeaderMap::get`). Response bodies are typed
  by what they encode: serde_json round trips, so a `Vec<String>` or an
  `Operator` sent by the server is carried as the value itself, and the
  downloader's `json::<Vec<String>>()` decodes exactly a `strings` body. The
  downloader's replies are arbitrary (`ProbeReply`, `RangeReply`): any status,
  any body, or a transport error.
-/
import SubfileExchange.Basic

namespace SubfileExchange

/-- A header map, lower-case names. -/
abbrev Headers := List (String × String)

/-- `HeaderMap::get`: the first value under the name. -/
def Headers.get (hs : Headers) (name : String) : Option String := hs.lookup name

/-- `HeaderValue::to_str`: the value as text when it holds only visible ASCII
    characters and tabs. -/
def headerToStr? (v : String) : Option String :=
  if v.data.all (fun c => c = '\t' ∨ (32 ≤ c.toNat ∧ c.toNat < 127)) then some v else none

/-- The names of the headers the sources use. -/
def authorizationHeader : String := "authorization"
def contentRangeHeader : String := "content-range"

/-- `StatusCode::is_success`. -/
def isSuccess (status : Nat) : Bool := 200 ≤ status && status < 300

/-- Response bodies, by what they encode. -/
inductive Body where
  | text (s : String)
  /-- A JSON array of strings (`/status`). -/
  | strings (xs : List String)
  /-- A JSON `Operator` (`/operator`). -/
  | operator (publicKey : String)
  /-- A JSON `Health` (`/health`). -/
  | health (healthy : Bool)
  | bytes (b : Bytes)
  deriving DecidableEq, Repr

/-- `response.json::<Vec<String>>()`. -/
def Body.decodeStrings : Body → Option (List String)
  | .strings xs => some xs
  | _ => none

/-- `response.json::<Operator>()`: the operator's public key. -/
def Body.decodeOperator : Body → Option String
  | .operator pk => some pk
  | _ => none

@[simp] theorem Body.decodeStrings_eq_some {b : Body} {xs : List String} :
    b.decodeStrings = some xs ↔ b = .strings xs := by
  cases b <;> simp [Body.decodeStrings]

@[simp] theorem Body.decodeOperator_eq_some {b : Body} {pk : String} :
    b.decodeOperator = some pk ↔ b = .operator pk := by
  cases b <;> simp [Body.decodeOperator]

/-- A request as the server's handlers see it. -/
structure Request where
  path : String
  headers : Headers
  deriving DecidableEq, Repr

/-- A response. -/
structure Response where
  status : Nat
  headers : Headers
  body : Body
  deriving DecidableEq, Repr

/-- What a `GET` of the availability probe comes back as. -/
inductive ProbeReply where
  | transportError
  | response (status : Nat) (body : Body)
  deriving DecidableEq, Repr

/-- What a range request comes back as: status, whether a `Content-Range`
    header is present, and the body bytes. -/
inductive RangeReply where
  | transportError
  | response (status : Nat) (contentRange : Bool) (body : Bytes)
  deriving DecidableEq, Repr

/-- A response of the server, as the probe receives it. -/
def Response.toProbeReply (r : Response) : ProbeReply := .response r.status r.body

/-! ## `str::trim_start_matches` -/

/-- `s.trim_start_matches(pat)`: strip every leading copy of `pat`. Each strip
    removes at least one character, so `s.length` rounds are enough. -/
def trimStartMatches (s pat : String) : String := ⟨go s.data.length s.data⟩
where
  go : Nat → List Char → List Char
    | 0, cs => cs
    | n + 1, cs => if pat.data ≠ [] ∧ pat.data.isPrefixOf cs then go n (cs.drop pat.data.length) else cs

theorem trimStartMatches_go_of_not_prefix {pat : String} {cs : List Char}
    (h : pat.data.isPrefixOf cs = false) (n : Nat) : trimStartMatches.go pat n cs = cs := by
  cases n <;> simp [trimStartMatches.go, h]

/-- Stripping a pattern in front of a text that does not start with it gives the text. -/
theorem trimStartMatches_append {pat s : String} (hp : pat.data ≠ [])
    (h : pat.data.isPrefixOf s.data = false) : trimStartMatches (pat ++ s) pat = s := by
  have hpre : pat.data.isPrefixOf (pat.data ++ s.data) = true :=
    List.isPrefixOf_iff_prefix.mpr (List.prefix_append _ _)
  obtain ⟨n, hn⟩ : ∃ n, pat.data.length + s.data.length = n + 1 :=
    ⟨_, (Nat.succ_pred_eq_of_pos (by have := List.length_pos.mpr hp; omega)).symm⟩
  simp only [trimStartMatches, String.data_append, List.length_append, hn, trimStartMatches.go,
    ne_eq, hp, not_false_eq_true, hpre, and_self, if_true, List.drop_left,
    trimStartMatches_go_of_not_prefix h]

end SubfileExchange
