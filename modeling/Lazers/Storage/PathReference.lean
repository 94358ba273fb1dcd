import Lazers.Storage.Path

/-!
# Path normalisation against its reference (`storage/path.rs`)

The normal form of a path is a function of the path and the working directory alone: the stack
its components walk to, joined by slashes. `normalize_path` computes it in place, and fails if a
push on the way would not fit.

- `normalizePath_reference`: the result for every input.
- `normalizePath_composes`: going to `a` and then to `b` is going to `a/b`, and a normal form is
  its own. The capacity is reached at the same component in both walks, because the walk to the
  normal form of `a` only grows.
-/

namespace Lazers.Storage

open FixedArray PathStack

variable {n : Nat}

instance (n : Nat) : DecidablePred (Fits n) := fun _ => inferInstanceAs (Decidable (_ ∧ _))

theorem Fits.dropLast {stack : List (List UInt8)} (h : Fits n stack) : Fits n stack.dropLast := by
  refine ⟨?_, Nat.le_trans length_render_dropLast_le h.2⟩
  rw [List.length_dropLast]
  exact Nat.le_trans (Nat.sub_le _ _) h.1

theorem Fits.take {stack : List (List UInt8)} (h : Fits n stack) (i : Nat) :
    Fits n (stack.take i) := by
  refine ⟨?_, Nat.le_trans (render_prefix_of_take stack i).length_le h.2⟩
  rw [List.length_take]
  exact Nat.le_trans (Nat.min_le_right _ _) h.1

theorem fits_nil : Fits (n + 1) [] := ⟨Nat.zero_le _, Nat.succ_le_succ (Nat.zero_le _)⟩

/-- The bytes of a result. -/
def resultBytes (result : Except StorageError (Nat × Vector UInt8 n)) :
    Except StorageError (List UInt8) :=
  result.map fun (len, out) => used out len

/-- **The normal form of a path**, unless there is no room for it. -/
def normalForm (n : Nat) (cwd path : String) : Except StorageError (List UInt8) :=
  if path ≠ "" ∧ Within 46 (Fits n) [] (walkOf cwd path) then
    .ok (render 47 (walk 46 [] (walkOf cwd path)))
  else .error .invalidPath

theorem resultBytes_normalizePath (cwd path : String) (buffer : Vector UInt8 (n + 1)) :
    resultBytes (normalizePath cwd path buffer) = normalForm (n + 1) cwd path := by
  rw [normalForm]
  by_cases hpath : path = ""
  · rw [if_neg fun h => h.1 hpath, normalizePath, if_pos hpath]
    rfl
  · obtain ⟨hin, len, out, hok, -, hused⟩ | ⟨hout, herr⟩ :=
      normalizePath_spec cwd hpath buffer (Nat.succ_pos n)
    · rw [if_pos ⟨hpath, hin⟩, hok, ← hused]
      rfl
    · rw [if_neg fun h => hout h.2, herr]
      rfl

/-! ## The reference -/

/-- A push on the way goes beyond 64 components or the buffer. -/
def Overflows (n : Nat) (cwd path : String) : Prop :=
  ∃ (pre : List (List UInt8)) (c : List UInt8), pre ++ [c] <+: walkOf cwd path ∧ Name 47 46 c ∧
    (maxPathComponents < (walk 46 [] pre ++ [c]).length ∨
      n < (47 :: [47].intercalate (walk 46 [] pre ++ [c])).length)

theorem not_within_iff {cwd path : String} :
    ¬ Within 46 (Fits (n + 1)) [] (walkOf cwd path) ↔ Overflows (n + 1) cwd path := by
  have hslash : ∀ c ∈ walkOf cwd path, (47 : UInt8) ∉ c := fun c hc => sep_notMem_of_mem_walkOf hc
  rw [within_iff_pushes (fun st hst => hst.dropLast) hslash, and_iff_right fits_nil, Overflows]
  simp only [not_forall, Fits, render_eq_intercalate, not_and_or, Nat.not_le, exists_prop]

/-- Every component of a text is a text, so the stack is. -/
theorem exists_text_of_mem_walkOf {cwd path : String} {c : List UInt8} (h : c ∈ walkOf cwd path) :
    ∃ text, strBytes text = c := by
  rw [walkOf, ← map_strBytes_split_slash, ← map_strBytes_split_slash] at h
  split_ifs at h
  · obtain ⟨text, -, rfl⟩ := List.mem_map.mp h
    exact ⟨text, rfl⟩
  · rw [← List.map_append] at h
    obtain ⟨text, -, rfl⟩ := List.mem_map.mp h
    exact ⟨text, rfl⟩

theorem exists_text_of_flatMap {stack : List (List UInt8)}
    (h : ∀ c ∈ stack, ∃ text, strBytes text = c) :
    ∃ text, strBytes text = stack.flatMap (47 :: ·) := by
  induction stack with
  | nil => exact ⟨"", rfl⟩
  | cons c rest ih =>
    obtain ⟨text, rfl⟩ := h c List.mem_cons_self
    obtain ⟨tail, htail⟩ := ih fun d hd => h d (List.mem_cons_of_mem _ hd)
    refine ⟨"/" ++ text ++ tail, ?_⟩
    rw [strBytes_append, strBytes_append, List.flatMap_cons, htail]
    rfl

/-- **A normal form is a text.** -/
theorem exists_text_of_walk (cwd path : String) :
    ∃ text, strBytes text = render 47 (walk 46 [] (walkOf cwd path)) := by
  rw [render]
  split_ifs
  · exact ⟨"/", by decide⟩
  · refine exists_text_of_flatMap fun c hc => ?_
    rcases mem_of_mem_walk hc with hc | hc
    · cases hc
    · exact exists_text_of_mem_walkOf hc

/-- **Path normalisation is its reference**, for every working directory, path and buffer. -/
theorem normalizePath_reference (cwd path : String) (buffer : Vector UInt8 (n + 1)) :
    match normalizePath cwd path buffer with
    | .ok (len, out) => path ≠ "" ∧ ¬ Overflows (n + 1) cwd path ∧ len ≤ n + 1 ∧
        used out len = 47 :: [47].intercalate (walk 46 [] (walkOf cwd path)) ∧
        isUtf8 (used out len) = true ∧ Canonical 47 46 (used out len)
    | .error e => e = .invalidPath ∧ (path = "" ∨ Overflows (n + 1) cwd path) := by
  by_cases hpath : path = ""
  · rw [normalizePath, if_pos hpath]
    exact ⟨rfl, .inl hpath⟩
  · obtain ⟨hin, len, out, hok, hlen, hused⟩ | ⟨hout, herr⟩ :=
      normalizePath_spec cwd hpath buffer (Nat.succ_pos n)
    · have hcanonical := canonical_of_normalizePath (Nat.succ_pos n) hok
      rw [hok]
      refine ⟨hpath, fun h => not_within_iff.mpr h hin, hlen, ?_, ?_, hcanonical⟩
      · rw [hused, render_eq_intercalate]
      · rw [hused]
        exact isUtf8_eq_true.mpr (exists_text_of_walk cwd path)
    · rw [herr]
      exact ⟨rfl, .inr (not_within_iff.mp hout)⟩

/-! ## Composition -/

/-- A normal form is absolute, so it does not depend on the working directory. -/
theorem walkOf_of_canonical {cwd path : String} (h : Canonical 47 46 (strBytes path)) :
    walkOf cwd path = (strBytes path).splitOn 47 := by
  rw [walkOf, if_pos]
  exact (startsWith_iff (by decide)).mpr h.1

theorem isAbsolute_append {a b : String} (ha : a ≠ "") : isAbsolute (a ++ b) = isAbsolute a := by
  have hne : (strBytes a) ≠ [] := fun h => ha (strBytes_eq_nil.mp h)
  rw [isAbsolute, isAbsolute, Bool.eq_iff_iff, startsWith_iff (by decide),
    startsWith_iff (by decide), strBytes_append, List.head?_append_of_ne_nil _ hne]

/-- The components of `a/b` are those of `a` and then those of `b`. -/
theorem walkOf_join {cwd a b : String} (ha : a ≠ "") :
    walkOf cwd (a ++ "/" ++ b) = walkOf cwd a ++ (strBytes b).splitOn 47 := by
  have hjoin : (strBytes (a ++ "/" ++ b)).splitOn 47 =
      (strBytes a).splitOn 47 ++ (strBytes b).splitOn 47 := by
    rw [strBytes_append, strBytes_append, List.append_assoc]
    exact List.splitOn_append_cons_self _ _
  rw [walkOf, walkOf, hjoin, String.append_assoc, isAbsolute_append ha]
  split_ifs
  · rfl
  · rw [List.append_assoc]

/-- **Normalisation composes.** A result of `normalize_path` is its own normal form, and taking it
for the working directory is the same as putting it before the path. -/
theorem normalizePath_composes {cwd a : String} {buffer out : Vector UInt8 (n + 1)} {len : Nat}
    (ha : normalizePath cwd a buffer = .ok (len, out)) :
    ∃ text, strBytes text = used out len ∧
      (∀ (cwd' : String) (buffer' : Vector UInt8 (n + 1)),
        resultBytes (normalizePath cwd' text buffer') = .ok (used out len)) ∧
      ∀ b : String, b ≠ "" → isAbsolute b = false → ∀ buffer' buffer'' : Vector UInt8 (n + 1),
        resultBytes (normalizePath text b buffer') =
          resultBytes (normalizePath cwd (a ++ "/" ++ b) buffer'') := by
  have hne : a ≠ "" := by
    rintro rfl
    rw [normalizePath, if_pos rfl] at ha
    cases ha
  obtain ⟨hin, len', out', hok, -, hused⟩ | ⟨-, herr⟩ :=
    normalizePath_spec cwd hne buffer (Nat.succ_pos n)
  swap
  · rw [herr] at ha
    cases ha
  rw [hok] at ha
  cases ha
  set stack := walk 46 [] (walkOf cwd a) with hstack
  have hnames : ∀ c ∈ stack, Name 47 46 c :=
    name_of_mem_walk (by simp) fun c hc => sep_notMem_of_mem_walkOf hc
  obtain ⟨text, htext⟩ := exists_text_of_walk cwd a
  rw [← hstack] at htext
  -- the way back to the normal form has room, because it only grows
  have hback : Within 46 (Fits (n + 1)) [] ((strBytes text).splitOn 47) := by
    rw [htext]
    exact within_splitOn_render hnames fun i => hin.finish.take i
  have hwalk : walk 46 [] ((strBytes text).splitOn 47) = stack := by
    rw [htext]
    exact walk_splitOn_render hnames
  refine ⟨text, by rw [htext, hused], fun cwd' buffer' => ?_, fun b hb hrel buffer' buffer'' => ?_⟩
  · have hcanonical : Canonical 47 46 (strBytes text) := by
      rw [htext]
      exact canonical_render hnames
    have htextNe : text ≠ "" := by
      rw [ne_eq, ← strBytes_eq_nil, htext]
      exact render_ne_nil
    rw [resultBytes_normalizePath, normalForm, walkOf_of_canonical hcanonical,
      if_pos ⟨htextNe, hback⟩, hwalk, hused]
  · have hjoinNe : a ++ "/" ++ b ≠ "" := by
      rw [ne_eq, ← strBytes_eq_nil, strBytes_append, strBytes_append]
      simp [strBytes_eq_nil, hne]
    have htextWalk : walkOf text b = (strBytes text).splitOn 47 ++ (strBytes b).splitOn 47 := by
      rw [walkOf, if_neg (by rw [hrel]; decide)]
    have hwithin : Within 46 (Fits (n + 1)) [] (walkOf text b) ↔
        Within 46 (Fits (n + 1)) [] (walkOf cwd (a ++ "/" ++ b)) := by
      rw [htextWalk, walkOf_join hne, within_append, within_append, hwalk, and_iff_right hback,
        and_iff_right hin]
    have hsame : walk 46 [] (walkOf text b) = walk 46 [] (walkOf cwd (a ++ "/" ++ b)) := by
      rw [htextWalk, walkOf_join hne, walk_append, walk_append, hwalk]
    rw [resultBytes_normalizePath, resultBytes_normalizePath, normalForm, normalForm, hsame]
    simp only [hwithin, hb, hjoinNe, ne_eq, not_false_iff]

/-- The buffer after `../bin` from `/system`, with what is left of the longer path. -/
def systemBuffer : Vector UInt8 16 :=
  #v[47, 98, 105, 110, 116, 101, 109, 0, 0, 0, 0, 0, 0, 0, 0, 0]

/-- From `/system`, `../bin` and then `x` is `../bin/x`. -/
theorem normalizePath_composes_at_system :
    normalizePath "/system" "../bin" (Vector.replicate 16 0) = .ok (4, systemBuffer) ∧
      resultBytes (normalizePath "/bin" "x" (Vector.replicate 16 0)) =
        resultBytes (normalizePath "/system" "../bin/x" (Vector.replicate 16 0)) := by
  have hbin : normalizePath "/system" "../bin" (Vector.replicate 16 0) = .ok (4, systemBuffer) := by
    decide +kernel
  obtain ⟨text, htext, -, hjoin⟩ := normalizePath_composes hbin
  have heq : text = "/bin" := strBytes_inj.mp (htext.trans (by decide +kernel))
  rw [heq] at hjoin
  exact ⟨hbin, hjoin "x" (by decide) (by decide +kernel) _ _⟩

end Lazers.Storage
