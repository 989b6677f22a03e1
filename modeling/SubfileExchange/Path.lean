/-
  SubfileExchange.Path

  File paths as the operating system resolves them. A path string is split on
  `/`; resolution starts at the root for an absolute path and at the working
  directory otherwise, skips empty and `.` components, goes to the parent on
  `..` (the root is its own parent) and descends on any other name. Symbolic
  links are not modelled: resolution is lexical.

  Two ways of building paths occur in the sources. The downloader concatenates
  strings (`output_dir + "/" + name`); the server uses `PathBuf::push`, which
  replaces the whole path when the pushed one is absolute. `resolvePath_append_slash`
  and `resolvePath_pushPath` reduce both to folding the appended components onto
  the resolved directory, and `isPrefix_foldl_stepComponent` is the containment
  argument: without a `..` component a fold never leaves the directory it starts in.
-/
import SubfileExchange.Basic

namespace SubfileExchange

/-! ## Components -/

/-- The `/`-separated components of a path, empty ones included. -/
def splitSlash : List Char → List (List Char)
  | [] => [[]]
  | c :: cs =>
    if c = '/' then [] :: splitSlash cs
    else match splitSlash cs with
      | [] => [[c]]
      | p :: ps => (c :: p) :: ps

theorem splitSlash_ne_nil (s : List Char) : splitSlash s ≠ [] := by
  cases s with
  | nil => simp [splitSlash]
  | cons c cs =>
    simp only [splitSlash]
    split
    · simp
    · split <;> simp

/-- Splitting distributes over a separator. -/
theorem splitSlash_append_slash (s t : List Char) :
    splitSlash (s ++ '/' :: t) = splitSlash s ++ splitSlash t := by
  induction s with
  | nil => simp [splitSlash]
  | cons c cs ih =>
    by_cases hc : c = '/'
    · simp [splitSlash, hc, ih]
    · obtain ⟨p, ps, hp⟩ := List.exists_cons_of_ne_nil (splitSlash_ne_nil cs)
      simp [splitSlash, hc, ih, hp]

/-- The component `..`. -/
def parentComponent : List Char := ['.', '.']

/-- One component of lexical resolution. -/
def stepComponent (dir : List String) (comp : List Char) : List String :=
  if comp = [] ∨ comp = ['.'] then dir
  else if comp = parentComponent then dir.dropLast
  else dir ++ [String.mk comp]

/-- Whether a path string starts at the root. -/
def isAbsolute (path : String) : Bool := path.data.head? = some '/'

/-- The absolute location, as a list of directory names from the root, that a
    path names when resolved from the working directory `cwd`. -/
def resolvePath (cwd : List String) (path : String) : List String :=
  (splitSlash path.data).foldl stepComponent (if isAbsolute path then [] else cwd)

/-! ## Containment -/

/-- A component other than `..` never leaves the directory. -/
theorem isPrefix_stepComponent {dir : List String} {comp : List Char}
    (h : comp ≠ parentComponent) : dir <+: stepComponent dir comp := by
  unfold stepComponent
  split_ifs
  · exact List.prefix_refl _
  · exact List.prefix_append _ _

/-- Folding components none of which is `..` stays below the starting directory. -/
theorem isPrefix_foldl_stepComponent {comps : List (List Char)}
    (h : parentComponent ∉ comps) (dir : List String) :
    dir <+: comps.foldl stepComponent dir := by
  induction comps generalizing dir with
  | nil => exact List.prefix_refl _
  | cons c cs ih =>
    simp only [List.mem_cons, not_or] at h
    exact (isPrefix_stepComponent (Ne.symm h.1)).trans (ih h.2 _)

/-- `s + "/" + t` resolves to the components of `t` folded onto where `s` resolves. -/
theorem resolvePath_append_slash (cwd : List String) {s : String} (t : String) (hs : s ≠ "") :
    resolvePath cwd (s ++ "/" ++ t) = (splitSlash t.data).foldl stepComponent (resolvePath cwd s) := by
  have hd : s.data ≠ [] := fun h => hs (String.ext h)
  obtain ⟨c, cs, hc⟩ := List.exists_cons_of_ne_nil hd
  have habs : isAbsolute (s ++ "/" ++ t) = isAbsolute s := by
    simp [isAbsolute, hc]
  simp only [resolvePath, habs]
  rw [show (s ++ "/" ++ t).data = s.data ++ '/' :: t.data by simp, splitSlash_append_slash,
    List.foldl_append]

/-- `PathBuf::push` on Unix: an absolute path replaces the whole path; otherwise
    it is joined after a separator, which is added unless the path is empty or
    already ends in one. -/
def pushPath (base p : String) : String :=
  if isAbsolute p then p
  else if base.data = [] ∨ base.data.getLast? = some '/' then base ++ p
  else base ++ "/" ++ p

/-- Pushing a relative path resolves to its components folded onto where the
    directory resolves. -/
theorem resolvePath_pushPath (cwd : List String) (base : String) {p : String}
    (hp : isAbsolute p = false) :
    resolvePath cwd (pushPath base p) = (splitSlash p.data).foldl stepComponent (resolvePath cwd base) := by
  unfold pushPath
  rw [if_neg (by simp [hp])]
  split
  · rename_i hb
    rcases hb with hb | hb
    · have : base = "" := String.ext hb
      subst this
      have hp' : p.data.head? ≠ some '/' := by simpa [isAbsolute] using hp
      simp [resolvePath, hp', isAbsolute, splitSlash, stepComponent]
    · obtain ⟨b, hb'⟩ : ∃ b, base.data = b ++ ['/'] :=
        ⟨base.data.dropLast, (List.dropLast_append_getLast? _ hb).symm⟩
      have hbase : base = String.mk b ++ "/" ++ "" := String.ext (by simp [hb'])
      have hsum : base ++ p = String.mk b ++ "/" ++ p := String.ext (by simp [hb'])
      by_cases hbn : b = []
      · subst hbn
        have habs : isAbsolute base = true := by simp [isAbsolute, hb']
        have habs' : isAbsolute (base ++ p) = true := by simp [isAbsolute, hb']
        simp only [resolvePath, habs, habs', if_true, hb', String.data_append]
        simp [splitSlash_append_slash, splitSlash, stepComponent]
      · have hne : String.mk b ≠ "" := fun h => hbn (congrArg String.data h)
        rw [hsum, resolvePath_append_slash cwd p hne, hbase, resolvePath_append_slash cwd "" hne]
        simp [splitSlash, stepComponent]
  · exact resolvePath_append_slash cwd p (fun h => by simp_all)

end SubfileExchange
