/-
  SubfileExchange.Basic

  Conventions of the embedding, shared by the server and the downloader.

  A Rust function returning `Result` that may also panic is modelled as
  `Except Failure α`: `Failure.error` is an `Err` propagated with `?`,
  `Failure.panic` an `unwrap`/`expect`, an out-of-bounds index or an arithmetic
  overflow. `u64` arithmetic is checked, as with overflow checks on (the debug
  profile): `U64.add`, `U64.mul`, `U64.sub` and `U64.div` compute in `Nat` and
  panic outside `[0, 2^64)`.

  `verify_chunk` (`file_hasher.rs`) is not among the sources; it is modelled
  from the spec (§4.1) as a comparison against a digest function, which every
  definition that verifies takes as a parameter.

  `writeAt` is `seek(SeekFrom::Start(off))` followed by `write_all(data)` on a
  regular file: a gap past the old end reads as zero bytes, and an empty write
  leaves the file as it was.
-/
import Mathlib

namespace SubfileExchange

/-- Byte strings: file contents, chunk bodies. -/
abbrev Bytes := List UInt8

/-- How a Rust call that does not return a value ends. -/
inductive Failure where
  /-- An `Err` returned, or propagated with `?`. -/
  | error (msg : String)
  /-- A panic: `unwrap`, `expect`, indexing out of bounds, arithmetic overflow. -/
  | panic (msg : String)
  deriving DecidableEq, Repr

/-- Results compare by variant and payload. -/
instance instDecidableEqExcept {ε α : Type} [DecidableEq ε] [DecidableEq α] :
    DecidableEq (Except ε α)
  | .error a, .error b => decidable_of_iff (a = b) ⟨congrArg _, Except.error.inj⟩
  | .ok a, .ok b => decidable_of_iff (a = b) ⟨congrArg _, Except.ok.inj⟩
  | .error _, .ok _ => isFalse nofun
  | .ok _, .error _ => isFalse nofun

/-- Peeling a `?`: a sequence succeeds exactly when its first step does and the
    rest succeeds from that step's value. -/
@[simp] theorem Except.bind_eq_ok {ε α β : Type} {x : Except ε α} {f : α → Except ε β} {b : β} :
    x >>= f = .ok b ↔ ∃ a, x = .ok a ∧ f a = .ok b := by
  cases x <;> simp [bind, Except.bind]

@[simp] theorem Except.ok_bind {ε α β : Type} {a : α} {f : α → Except ε β} :
    (Except.ok a >>= f) = f a := rfl

/-- A loop `for x in xs { f(x)? }` succeeds exactly when every iteration does. -/
theorem forM_eq_ok {ε α : Type} {xs : List α} {f : α → Except ε Unit} :
    xs.forM f = .ok () ↔ ∀ x ∈ xs, f x = .ok () := by
  induction xs with
  | nil => simp [pure, Except.pure]
  | cons x xs ih =>
    simp only [List.forM_cons', Except.bind_eq_ok, ih, List.mem_cons, forall_eq_or_imp]
    exact ⟨fun ⟨(), h1, h2⟩ => ⟨h1, h2⟩, fun ⟨h1, h2⟩ => ⟨(), h1, h2⟩⟩

/-- Collecting `f(x)?` over a list succeeds exactly when each call does, and
    returns the results in order. -/
theorem mapM_eq_ok {ε α β : Type} {xs : List α} {f : α → Except ε β} {ys : List β} :
    xs.mapM f = .ok ys ↔ List.Forall₂ (fun x y => f x = .ok y) xs ys := by
  induction xs generalizing ys with
  | nil =>
    rw [List.mapM_nil]
    cases ys with
    | nil => simp [pure, Except.pure]
    | cons y ys =>
      simp only [pure, Except.pure, Except.ok.injEq, reduceCtorEq, false_iff]
      rintro ⟨⟩
  | cons x xs ih =>
    rw [List.mapM_cons]
    cases ys with
    | nil =>
      simp only [Except.bind_eq_ok, pure, Except.pure, Except.ok.injEq, reduceCtorEq, and_false,
        exists_false, false_iff]
      rintro ⟨⟩
    | cons y ys =>
      simp only [Except.bind_eq_ok, pure, Except.pure, Except.ok.injEq, List.cons.injEq,
        List.forall₂_cons, ← ih]
      constructor
      · rintro ⟨a, ha, b, hb, rfl, rfl⟩; exact ⟨ha, hb⟩
      · rintro ⟨ha, hb⟩; exact ⟨y, ha, ys, hb, rfl, rfl⟩

/-- Pairing every element with a related value that has a property, as a list. -/
theorem exists_forall₂_and {α β : Type} {R : α → β → Prop} {P : β → Prop} {xs : List α} :
    (∃ ys, List.Forall₂ R xs ys ∧ ∀ y ∈ ys, P y) ↔ ∀ x ∈ xs, ∃ y, R x y ∧ P y := by
  induction xs with
  | nil => exact ⟨fun _ => by simp, fun _ => ⟨[], .nil, by simp⟩⟩
  | cons x xs ih =>
    simp only [List.mem_cons, forall_eq_or_imp]
    constructor
    · rintro ⟨ys, hF, hP⟩
      cases hF with
      | cons hxy hrest =>
        simp only [List.mem_cons, forall_eq_or_imp] at hP
        exact ⟨⟨_, hxy, hP.1⟩, ih.mp ⟨_, hrest, hP.2⟩⟩
    · rintro ⟨⟨y, hxy, hy⟩, hrest⟩
      obtain ⟨ys, hys, hP⟩ := ih.mpr hrest
      exact ⟨y :: ys, .cons hxy hys, by simpa [hy] using hP⟩

/-- Each element on the right of `Forall₂` is related to one on the left. -/
theorem Forall₂.exists_of_mem_right {α β : Type} {R : α → β → Prop} {xs : List α} {ys : List β}
    (h : List.Forall₂ R xs ys) {y : β} (hy : y ∈ ys) : ∃ x ∈ xs, R x y := by
  induction h with
  | nil => cases hy
  | cons hxy _ ih =>
    rcases List.mem_cons.mp hy with rfl | hy
    · exact ⟨_, List.mem_cons_self _ _, hxy⟩
    · obtain ⟨x, hx, hr⟩ := ih hy
      exact ⟨x, List.mem_cons_of_mem _ hx, hr⟩

theorem Forall₂.exists_of_mem_left {α β : Type} {R : α → β → Prop} {xs : List α} {ys : List β}
    (h : List.Forall₂ R xs ys) {x : α} (hx : x ∈ xs) : ∃ y ∈ ys, R x y :=
  Forall₂.exists_of_mem_right (List.Forall₂.flip (R := flip R) h) hx

/-- An element of a prefix is the element of the list at the same position. -/
theorem getElem?_of_prefix {α : Type} {x y : List α} (h : x <+: y) {n : Nat} {a : α}
    (hx : x[n]? = some a) : y[n]? = some a := by
  obtain ⟨t, rfl⟩ := h
  rw [List.getElem?_append_left (List.getElem?_eq_some_iff.mp hx).1]
  exact hx

/-- An element of a list with one element appended is an element of the list or
    the appended one, at the end. -/
theorem getElem?_concat_eq_some {α : Type} {l : List α} {x y : α} {n : Nat}
    (h : (l ++ [x])[n]? = some y) : l[n]? = some y ∨ n = l.length ∧ y = x := by
  rw [List.getElem?_append] at h
  split_ifs at h with hn
  · exact .inl h
  obtain ⟨hlt, hget⟩ := List.getElem?_eq_some_iff.mp h
  exact .inr ⟨by simp at hlt; omega, by simpa using hget.symm⟩

/-- An element of a list with one position replaced is the new element, at that
    position, or the old one at another. -/
theorem getElem?_set_eq_some {α : Type} {l : List α} {i j : Nat} {a b : α}
    (h : (l.set i a)[j]? = some b) : i = j ∧ b = a ∨ i ≠ j ∧ l[j]? = some b := by
  rw [List.getElem?_set] at h
  split_ifs at h with hij
  · exact .inl ⟨hij, (Option.some.inj h).symm⟩
  · exact .inr ⟨hij, h⟩

/-- An image of a list with one element appended is an image of the list or of
    the appended element. -/
theorem mem_map_concat {α β : Type} {f : α → β} {l : List α} {x : α} {y : β}
    (h : y ∈ (l ++ [x]).map f) : y ∈ l.map f ∨ y = f x := by
  rwa [List.map_append, List.mem_append, List.map_singleton, List.mem_singleton] at h

/-- Taking out the element at `j` and putting it at the end permutes the list. -/
theorem perm_eraseIdx_append {α : Type} {l : List α} {j : Nat} {a : α} (h : l[j]? = some a) :
    (l.eraseIdx j ++ [a]).Perm l := by
  obtain ⟨hj, rfl⟩ := List.getElem?_eq_some_iff.mp h
  rw [List.eraseIdx_eq_take_drop_succ, List.append_assoc]
  conv_rhs => rw [← List.take_append_drop j l, List.drop_eq_getElem_cons hj]
  exact List.Perm.append_left _ (List.perm_append_singleton _ _)

/-- The largest `u64` plus one. -/
abbrev u64Size : Nat := 2 ^ 64

namespace U64

/-- `a + b` on `u64`. -/
def add (a b : Nat) : Except Failure Nat :=
  if a + b < u64Size then .ok (a + b) else .error (.panic "attempt to add with overflow")

/-- `a * b` on `u64`. -/
def mul (a b : Nat) : Except Failure Nat :=
  if a * b < u64Size then .ok (a * b) else .error (.panic "attempt to multiply with overflow")

/-- `a - b` on `u64`. -/
def sub (a b : Nat) : Except Failure Nat :=
  if b ≤ a then .ok (a - b) else .error (.panic "attempt to subtract with overflow")

/-- `a / b` on `u64`. -/
def div (a b : Nat) : Except Failure Nat :=
  if b = 0 then .error (.panic "attempt to divide by zero") else .ok (a / b)

@[simp] theorem add_eq_ok {a b r : Nat} : add a b = .ok r ↔ a + b < u64Size ∧ a + b = r := by
  unfold add; split <;> simp_all

@[simp] theorem mul_eq_ok {a b r : Nat} : mul a b = .ok r ↔ a * b < u64Size ∧ a * b = r := by
  unfold mul; split <;> simp_all

@[simp] theorem sub_eq_ok {a b r : Nat} : sub a b = .ok r ↔ b ≤ a ∧ a - b = r := by
  unfold sub; split <;> simp_all

@[simp] theorem div_eq_ok {a b r : Nat} : div a b = .ok r ↔ b ≠ 0 ∧ a / b = r := by
  unfold div; split <;> simp_all

end U64

/-- `slice[i]` in Rust: the element, or the out-of-bounds panic. -/
def index {α : Type} (xs : List α) (i : Nat) : Except Failure α :=
  match xs[i]? with
  | some a => .ok a
  | none => .error (.panic "index out of bounds")

@[simp] theorem index_eq_ok {α : Type} {xs : List α} {i : Nat} {a : α} :
    index xs i = .ok a ↔ xs[i]? = some a := by
  cases h : xs[i]? <;> simp [index, h]

/-! ## Computations that cannot return an error -/

/-- A computation that succeeds or panics: it never returns a Rust `Err`. -/
def OkOrPanic {α : Type} (x : Except Failure α) : Prop :=
  (∃ a, x = .ok a) ∨ ∃ msg, x = .error (.panic msg)

theorem OkOrPanic.pure {α : Type} (a : α) : OkOrPanic (Pure.pure a : Except Failure α) :=
  .inl ⟨a, rfl⟩

theorem OkOrPanic.bind {α β : Type} {x : Except Failure α} {f : α → Except Failure β}
    (hx : OkOrPanic x) (hf : ∀ a, OkOrPanic (f a)) : OkOrPanic (x >>= f) := by
  rcases hx with ⟨a, rfl⟩ | ⟨msg, rfl⟩
  · exact hf a
  · exact .inr ⟨msg, rfl⟩

theorem OkOrPanic.of_ite {α : Type} {p : Prop} [Decidable p] {a : α} {msg : String} :
    OkOrPanic (if p then .ok a else .error (.panic msg)) := by
  split
  · exact .inl ⟨a, rfl⟩
  · exact .inr ⟨msg, rfl⟩

theorem U64.add_okOrPanic (a b : Nat) : OkOrPanic (U64.add a b) := OkOrPanic.of_ite
theorem U64.mul_okOrPanic (a b : Nat) : OkOrPanic (U64.mul a b) := OkOrPanic.of_ite
theorem U64.sub_okOrPanic (a b : Nat) : OkOrPanic (U64.sub a b) := OkOrPanic.of_ite

theorem U64.div_okOrPanic (a b : Nat) : OkOrPanic (U64.div a b) := by
  unfold U64.div
  split
  · exact .inr ⟨_, rfl⟩
  · exact .inl ⟨_, rfl⟩

theorem index_okOrPanic {α : Type} (xs : List α) (i : Nat) : OkOrPanic (index xs i) := by
  unfold index
  split
  · exact .inl ⟨_, rfl⟩
  · exact .inr ⟨_, rfl⟩

/-- A run of `mapM` whose steps succeed or panic, one of them failing, panics. -/
theorem mapM_panics {α β : Type} {f : α → Except Failure β} {xs : List α}
    (hall : ∀ x ∈ xs, OkOrPanic (f x)) (hone : ∃ x ∈ xs, ∀ y, f x ≠ .ok y) :
    ∃ msg, xs.mapM f = .error (.panic msg) := by
  induction xs with
  | nil => simp at hone
  | cons x xs ih =>
    simp only [List.mem_cons, forall_eq_or_imp] at hall
    rw [List.mapM_cons]
    rcases hall.1 with ⟨y, hy⟩ | ⟨msg, hmsg⟩
    · obtain ⟨x', hx', hne⟩ := hone
      rcases List.mem_cons.mp hx' with rfl | hx'
      · exact absurd hy (hne y)
      obtain ⟨msg, hmsg⟩ := ih hall.2 ⟨x', hx', hne⟩
      exact ⟨msg, by rw [hy, Except.ok_bind, hmsg]; rfl⟩
    · exact ⟨msg, by rw [hmsg]; rfl⟩

/-- `verify_chunk(data, chunk_hash)`: the digest of the bytes is the expected one
    (spec §4.1; `file_hasher.rs` is not among the sources). -/
def verifyChunk (digest : Bytes → String) (data : Bytes) (chunkHash : String) : Bool :=
  digest data == chunkHash

@[simp] theorem verifyChunk_iff {digest : Bytes → String} {data : Bytes} {h : String} :
    verifyChunk digest data h = true ↔ digest data = h := by
  simp [verifyChunk]

/-! ## Writing at an offset -/

/-- `seek(SeekFrom::Start(off))` then `write_all(data)`. -/
def writeAt (file : Bytes) (off : Nat) (data : Bytes) : Bytes :=
  if data = [] then file
  else file.take off ++ List.replicate (off - file.length) 0 ++ data ++
    file.drop (off + data.length)

@[simp] theorem writeAt_nil (file : Bytes) (off : Nat) : writeAt file off [] = file := by
  simp [writeAt]

theorem writeAt_length {file data : Bytes} (off : Nat) (h : data ≠ []) :
    (writeAt file off data).length = max file.length (off + data.length) := by
  simp only [writeAt, h, if_false, List.length_append, List.length_take, List.length_replicate,
    List.length_drop]
  omega

/-- Element characterisation: the written window reads `data`, a gap before it
    reads zero, everything else is the old file. -/
theorem writeAt_getElem? {file data : Bytes} (off q : Nat) (h : data ≠ []) :
    (writeAt file off data)[q]? =
      if off ≤ q ∧ q < off + data.length then data[q - off]?
      else if file.length ≤ q ∧ q < off then some 0 else file[q]? := by
  have htk : (file.take off).length = min off file.length := List.length_take ..
  simp only [writeAt, h, if_false, List.append_assoc]
  by_cases h1 : q < min off file.length
  · rw [List.getElem?_append_left (by omega), List.getElem?_take_of_lt (by omega),
      if_neg (by omega), if_neg (by omega)]
  rw [List.getElem?_append_right (by omega), htk]
  by_cases h2 : q < off
  · rw [List.getElem?_append_left (by simp; omega), List.getElem?_replicate,
      if_pos (by omega), if_neg (by omega), if_pos (by omega)]
  rw [List.getElem?_append_right (by simp; omega), List.length_replicate]
  by_cases h3 : q < off + data.length
  · rw [List.getElem?_append_left (by omega), if_pos ⟨by omega, h3⟩]
    congr 1; omega
  rw [List.getElem?_append_right (by omega), List.getElem?_drop, if_neg (by omega),
    if_neg (by omega)]
  congr 1; omega

end SubfileExchange
