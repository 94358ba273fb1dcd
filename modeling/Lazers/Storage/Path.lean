import Lazers.Lib.FixedArray
import Lazers.Lib.PathStack
import Lazers.Memory.Types
import Lazers.Str

/-!
# Path normalisation (`storage/path.rs`)

A path is resolved against the working directory of a process into a byte buffer.
The normaliser keeps no list of components: for each one on the path it remembers
how long the output was before it, so that `..` is a truncation.

- `PathWalk.Rep`: the buffer holds a stack of names, rendered.
- `normalizePath_spec`: the walk goes through exactly when every prefix of it
  `Fits`, and then leaves the rendered stack.
-/

namespace Lazers.Storage

open FixedArray PathStack

/-- `StorageError`, in `storage/mod.rs`. -/
inductive StorageError where
  | memory (error : Memory.MemoryError)
  | ahciControllerNotFound
  | ahciPortNotFound
  | ahciCommandTimeout
  | ahciTaskFileError
  | invalidGptHeader
  | invalidPartitionTable
  | missingEspPartition
  | missingSystemPartition
  | invalidFat32BootSector
  | invalidPath
  | pathNotAbsolute
  | invalidShortName
  | fileNotFound
  | notAFile
  | notADirectory
  | bufferTooSmall
  | rootFsUnavailable
deriving DecidableEq, Repr

def maxPathComponents : Nat := 64

/-- The locals of `normalize_path`. -/
structure PathWalk (n : Nat) where
  buffer : Vector UInt8 n
  normalizedLen : Nat
  componentStarts : Vector Nat maxPathComponents
  componentCount : Nat
deriving DecidableEq

variable {n : Nat}

/-- The body of the loop in `normalize_path_parts`. -/
def normalizeComponent (w : PathWalk n) (component : String) : Except StorageError (PathWalk n) :=
  if component = "" ∨ component = "." then .ok w
  else if component = ".." then
    if w.componentCount > 0 then
      .ok { w with
        componentCount := w.componentCount - 1
        normalizedLen := (w.componentStarts[w.componentCount - 1]?).getD 0 }
    else .ok w
  else if w.componentCount ≥ maxPathComponents then .error .invalidPath
  else
    let bytes := strBytes component
    let previousLen := w.normalizedLen
    let required := if previousLen = 1 then bytes.length else bytes.length + 1
    if previousLen + required > n then .error .invalidPath
    else
      let (buffer, start) :=
        if previousLen > 1 then (w.buffer.setIfInBounds previousLen 47, previousLen + 1)
        else (w.buffer, previousLen)
      .ok {
        buffer := writeAt buffer start bytes
        normalizedLen := start + bytes.length
        componentStarts := w.componentStarts.setIfInBounds w.componentCount previousLen
        componentCount := w.componentCount + 1 }

/-- `normalize_path_parts`. -/
def normalizePathParts (source : String) (w : PathWalk n) : Except StorageError (PathWalk n) :=
  (split source '/').foldlM normalizeComponent w

/-- `path.starts_with('/')`. -/
def isAbsolute (path : String) : Bool := startsWith path '/'

/-- `normalize_path`: the length and the buffer. -/
def normalizePath (cwd path : String) (buffer : Vector UInt8 n) :
    Except StorageError (Nat × Vector UInt8 n) :=
  if path = "" then .error .invalidPath
  else do
    let w : PathWalk n := {
      buffer := buffer.setIfInBounds 0 47
      normalizedLen := 1
      componentStarts := Vector.replicate maxPathComponents 0
      componentCount := 0 }
    let w ←
      if isAbsolute path then normalizePathParts path w
      else do
        let w ← normalizePathParts cwd w
        normalizePathParts path w
    .ok (w.normalizedLen, w.buffer)

example :
    (normalizePath "/system/bin" "../cat" (Vector.replicate 16 0)).toOption.map
      (fun r => used r.2 r.1) = some (strBytes "/system/cat") := by
  decide +kernel

/-! ## The stack behind the buffer -/

/-- The components `normalize_path` walks, as bytes. -/
def walkOf (cwd path : String) : List (List UInt8) :=
  if isAbsolute path then (strBytes path).splitOn 47
  else (strBytes cwd).splitOn 47 ++ (strBytes path).splitOn 47

/-- Stacks the normaliser has room for. -/
def Fits (n : Nat) (stack : List (List UInt8)) : Prop :=
  stack.length ≤ maxPathComponents ∧ (render 47 stack).length ≤ n

/-- **Representation**: what the locals say about the stack. -/
structure PathWalk.Rep (w : PathWalk n) (stack : List (List UInt8)) : Prop where
  names : ∀ c ∈ stack, Name 47 46 c
  used_eq : used w.buffer w.normalizedLen = render 47 stack
  len_le : w.normalizedLen ≤ n
  count_eq : w.componentCount = stack.length
  count_le : stack.length ≤ maxPathComponents
  starts : ∀ i < stack.length,
    w.componentStarts[i]? = some (render 47 (stack.take i)).length

namespace PathWalk.Rep

variable {w : PathWalk n} {stack : List (List UInt8)}

theorem len_eq (h : w.Rep stack) : w.normalizedLen = (render 47 stack).length := by
  rw [← h.used_eq, length_used _ h.len_le]

theorem fits (h : w.Rep stack) : Fits n stack := ⟨h.count_le, h.len_eq ▸ h.len_le⟩

theorem one_lt_len (h : w.Rep stack) : 1 < w.normalizedLen ↔ stack ≠ [] := by
  rw [h.len_eq]
  exact one_lt_length_render fun c hc => (h.names c hc).ne_nil

/-- `..` cuts the output back to where the last component began. -/
theorem pop (h : w.Rep stack) (hne : stack ≠ []) :
    Rep { w with
      componentCount := w.componentCount - 1
      normalizedLen := (w.componentStarts[w.componentCount - 1]?).getD 0 } stack.dropLast := by
  have hpos : 0 < stack.length := List.length_pos_iff.mpr hne
  have hdrop : stack.dropLast = stack.take (stack.length - 1) := List.dropLast_eq_take
  have hstart : (w.componentStarts[w.componentCount - 1]?).getD 0 =
      (render 47 stack.dropLast).length := by
    rw [h.count_eq, h.starts _ (by omega), hdrop]
    rfl
  have hpre : render 47 stack.dropLast <+: render 47 stack := by
    rw [hdrop]
    exact render_prefix_of_take _ _
  have hle : (render 47 stack.dropLast).length ≤ w.normalizedLen := by
    rw [h.len_eq]
    exact hpre.length_le
  constructor
  · intro c hc
    exact h.names c (List.dropLast_subset _ hc)
  · dsimp only
    rw [hstart, used_take _ hle, h.used_eq]
    exact (List.prefix_iff_eq_take.mp hpre).symm
  · dsimp only
    rw [hstart]
    exact Nat.le_trans hle h.len_le
  · dsimp only
    rw [h.count_eq, List.length_dropLast]
  · rw [List.length_dropLast]
    exact Nat.le_trans (Nat.sub_le _ _) h.count_le
  · intro i hi
    rw [List.length_dropLast] at hi
    rw [h.starts i (by omega), hdrop, List.take_take, Nat.min_eq_left (by omega)]

/-- A name goes behind the output, with a slash unless that is the root. -/
theorem push (h : w.Rep stack) {c : List UInt8} (hc : Name 47 46 c) {buffer : Vector UInt8 n}
    {len : Nat} (hcount : stack.length < maxPathComponents)
    (hused : used buffer len = render 47 (stack ++ [c])) (hlen : len ≤ n) :
    Rep {
      buffer := buffer
      normalizedLen := len
      componentStarts := w.componentStarts.setIfInBounds w.componentCount w.normalizedLen
      componentCount := w.componentCount + 1 } (stack ++ [c]) := by
  constructor
  · intro d hd
    rw [List.mem_append, List.mem_singleton] at hd
    obtain hd | rfl := hd
    · exact h.names d hd
    · exact hc
  · exact hused
  · exact hlen
  · dsimp only
    rw [h.count_eq, List.length_append, List.length_singleton]
  · rw [List.length_append, List.length_singleton]
    exact hcount
  · intro i hi
    dsimp only
    rw [List.length_append, List.length_singleton] at hi
    rw [Vector.getElem?_setIfInBounds, h.count_eq]
    by_cases hlast : stack.length = i
    · subst hlast
      rw [if_pos rfl, if_pos hcount, h.len_eq, List.take_left]
    · rw [if_neg hlast, h.starts i (by omega), List.take_append_of_le_length (by omega)]

end PathWalk.Rep

theorem strBytes_dot : strBytes "." = [46] := by decide

theorem strBytes_dots : strBytes ".." = [46, 46] := by decide

/-- **One component**: the stack visits it, if the result fits. -/
theorem normalizeComponent_spec {w : PathWalk n} {stack : List (List UInt8)} (h : w.Rep stack)
    {component : String} (hc : 47 ∉ strBytes component) :
    (Fits n (visit 46 stack (strBytes component)) ∧
      ∃ w', normalizeComponent w component = .ok w' ∧
        w'.Rep (visit 46 stack (strBytes component))) ∨
    (¬ Fits n (visit 46 stack (strBytes component)) ∧
      normalizeComponent w component = .error .invalidPath) := by
  obtain ⟨hskip, heq⟩ | ⟨hdots, heq⟩ | ⟨hname, heq⟩ := visit_cases 46 stack hc
  · rw [strBytes_eq_nil, ← strBytes_dot, strBytes_inj] at hskip
    rw [heq, normalizeComponent, if_pos hskip]
    exact .inl ⟨h.fits, w, rfl, h⟩
  · have hdots' : component = ".." := by rwa [← strBytes_dots, strBytes_inj] at hdots
    rw [heq, normalizeComponent, hdots', if_neg (by decide), if_pos rfl, h.count_eq]
    by_cases hne : stack = []
    · rw [hne, if_neg (by simp)]
      subst hne
      exact .inl ⟨h.fits, w, rfl, h⟩
    · rw [if_pos (List.length_pos_iff.mpr hne), ← h.count_eq]
      exact .inl ⟨(h.pop hne).fits, _, rfl, h.pop hne⟩
  · have hskip : ¬ (component = "" ∨ component = ".") := by
      rw [← strBytes_eq_nil, ← strBytes_inj (t := "."), strBytes_dot]
      exact not_or.mpr ⟨hname.ne_nil, hname.ne_dot⟩
    have hdots : component ≠ ".." := by
      rw [ne_eq, ← strBytes_inj, strBytes_dots]
      exact hname.ne_dots
    rw [heq, normalizeComponent, if_neg hskip, if_neg hdots, h.count_eq]
    by_cases hcount : stack.length ≥ maxPathComponents
    · rw [if_pos hcount]
      refine .inr ⟨fun hfits => ?_, rfl⟩
      have hle := hfits.1
      rw [List.length_append, List.length_singleton] at hle
      omega
    · rw [if_neg hcount]
      have hcount' : stack.length < maxPathComponents := Nat.lt_of_not_le hcount
      have hfits : Fits n (stack ++ [strBytes component]) ↔
          (render 47 (stack ++ [strBytes component])).length ≤ n := by
        rw [Fits, List.length_append, List.length_singleton]
        exact ⟨And.right, fun hle => ⟨hcount', hle⟩⟩
      rw [hfits, ← h.count_eq]
      by_cases hne : stack = []
      · -- At the root the slash is already there.
        have hone : w.normalizedLen = 1 := by rw [h.len_eq, hne]; rfl
        have hrender : render 47 (stack ++ [strBytes component]) =
            render 47 stack ++ strBytes component := by rw [hne]; exact render_push_nil
        rw [hrender, List.length_append, ← h.len_eq]
        dsimp only
        rw [if_pos hone]
        by_cases hfull : w.normalizedLen + (strBytes component).length > n
        · rw [if_pos hfull]
          exact .inr ⟨Nat.not_le_of_gt hfull, rfl⟩
        · rw [if_neg hfull, if_neg (by omega)]
          refine .inl ⟨Nat.le_of_not_gt hfull, _, rfl, ?_⟩
          refine h.push hname hcount' ?_ (Nat.le_of_not_gt hfull)
          rw [used_writeAt _ _ (Nat.le_of_not_gt hfull), h.used_eq, hrender]
      · have hlen : 1 < w.normalizedLen := h.one_lt_len.mpr hne
        have hrender : render 47 (stack ++ [strBytes component]) =
            render 47 stack ++ 47 :: strBytes component := render_push hne
        rw [hrender, List.length_append, List.length_cons, ← h.len_eq]
        dsimp only
        rw [if_neg (by omega : ¬ w.normalizedLen = 1)]
        by_cases hfull : w.normalizedLen + ((strBytes component).length + 1) > n
        · rw [if_pos hfull]
          exact .inr ⟨Nat.not_le_of_gt hfull, rfl⟩
        · rw [if_neg hfull, if_pos hlen]
          refine .inl ⟨Nat.le_of_not_gt hfull, _, rfl, ?_⟩
          refine h.push hname hcount' ?_ (by dsimp only; omega)
          dsimp only
          rw [used_writeAt _ _ (by omega), used_push _ (by omega), h.used_eq, hrender,
            List.append_assoc, List.singleton_append]

/-! ## The whole walk -/

theorem foldlM_normalizeComponent_spec {components : List String} {w : PathWalk n}
    {stack : List (List UInt8)} (h : w.Rep stack)
    (hcs : ∀ c ∈ components.map strBytes, (47 : UInt8) ∉ c) :
    (Within 46 (Fits n) stack (components.map strBytes) ∧
      ∃ w', components.foldlM normalizeComponent w = .ok w' ∧
        w'.Rep (walk 46 stack (components.map strBytes))) ∨
    (¬ Within 46 (Fits n) stack (components.map strBytes) ∧
      components.foldlM normalizeComponent w = .error .invalidPath) := by
  induction components generalizing w stack with
  | nil => exact .inl ⟨within_nil.mpr h.fits, w, rfl, h⟩
  | cons c rest ih =>
    rw [List.map_cons] at hcs ⊢
    rw [List.foldlM_cons, within_cons, walk_cons]
    obtain ⟨hfits, w₁, hok, hrep⟩ | ⟨hfits, herr⟩ :=
      normalizeComponent_spec h (hcs _ List.mem_cons_self)
    · rw [hok]
      obtain ⟨hin, hrest⟩ | ⟨hout, hrest⟩ := ih hrep fun d hd => hcs d (List.mem_cons_of_mem _ hd)
      · exact .inl ⟨⟨h.fits, hin⟩, hrest⟩
      · exact .inr ⟨fun hin => hout hin.2, hrest⟩
    · rw [herr]
      exact .inr ⟨fun hin => hfits hin.2.start, rfl⟩

theorem map_strBytes_split_slash (s : String) :
    (split s '/').map strBytes = (strBytes s).splitOn 47 :=
  map_strBytes_split s (by decide)

theorem normalizePathParts_spec (source : String) {w : PathWalk n} {stack : List (List UInt8)}
    (h : w.Rep stack) :
    (Within 46 (Fits n) stack ((strBytes source).splitOn 47) ∧
      ∃ w', normalizePathParts source w = .ok w' ∧
        w'.Rep (walk 46 stack ((strBytes source).splitOn 47))) ∨
    (¬ Within 46 (Fits n) stack ((strBytes source).splitOn 47) ∧
      normalizePathParts source w = .error .invalidPath) := by
  rw [← map_strBytes_split_slash]
  refine foldlM_normalizeComponent_spec h fun c hc => ?_
  rw [map_strBytes_split_slash] at hc
  exact sep_notMem_of_mem_splitOn hc

/-- The walk starts at the root. -/
theorem rep_root (buffer : Vector UInt8 n) (hn : 0 < n) :
    PathWalk.Rep {
      buffer := buffer.setIfInBounds 0 47
      normalizedLen := 1
      componentStarts := Vector.replicate maxPathComponents 0
      componentCount := 0 } [] where
  names := by simp
  used_eq := by
    dsimp only
    rw [render_nil, used_push _ hn, used_zero]
    rfl
  len_le := hn
  count_eq := rfl
  count_le := Nat.zero_le _
  starts := fun i hi => absurd hi (Nat.not_lt_zero i)

/-- **Path normalisation**: it succeeds exactly when every prefix of the walk fits, with
the rendered stack the walk ends at. -/
theorem normalizePath_spec (cwd : String) {path : String} (hpath : path ≠ "")
    (buffer : Vector UInt8 n) (hn : 0 < n) :
    (Within 46 (Fits n) [] (walkOf cwd path) ∧
      ∃ len out, normalizePath cwd path buffer = .ok (len, out) ∧ len ≤ n ∧
        used out len = render 47 (walk 46 [] (walkOf cwd path))) ∨
    (¬ Within 46 (Fits n) [] (walkOf cwd path) ∧
      normalizePath cwd path buffer = .error .invalidPath) := by
  rw [normalizePath, if_neg hpath, walkOf]
  have hroot := rep_root buffer hn
  by_cases habs : isAbsolute path
  · rw [if_pos habs, if_pos habs]
    obtain ⟨hin, w, hok, hrep⟩ | ⟨hout, herr⟩ := normalizePathParts_spec path hroot
    · rw [hok]
      exact .inl ⟨hin, w.normalizedLen, w.buffer, rfl, hrep.len_le, hrep.used_eq⟩
    · rw [herr]
      exact .inr ⟨hout, rfl⟩
  · rw [if_neg habs, if_neg habs, within_append, walk_append]
    obtain ⟨hin, w, hok, hrep⟩ | ⟨hout, herr⟩ := normalizePathParts_spec cwd hroot
    · rw [hok]
      obtain ⟨hin', w', hok', hrep'⟩ | ⟨hout', herr'⟩ := normalizePathParts_spec path hrep
      · refine .inl ⟨⟨hin, hin'⟩, w'.normalizedLen, w'.buffer, ?_, hrep'.len_le, hrep'.used_eq⟩
        change (normalizePathParts path w >>= fun w => Except.ok (w.normalizedLen, w.buffer)) = _
        rw [hok']
        rfl
      · refine .inr ⟨fun h => hout' h.2, ?_⟩
        change (normalizePathParts path w >>= fun w => Except.ok (w.normalizedLen, w.buffer)) = _
        rw [herr']
        rfl
    · rw [herr]
      exact .inr ⟨fun h => hout h.1, rfl⟩

theorem sep_notMem_of_mem_walkOf {cwd path : String} {c : List UInt8} (h : c ∈ walkOf cwd path) :
    47 ∉ c := by
  rw [walkOf] at h
  split_ifs at h
  · exact sep_notMem_of_mem_splitOn h
  · rw [List.mem_append] at h
    obtain h | h := h
    · exact sep_notMem_of_mem_splitOn h
    · exact sep_notMem_of_mem_splitOn h

/-- What the normaliser returns is canonical. -/
theorem canonical_of_normalizePath {cwd path : String} {buffer : Vector UInt8 n} (hn : 0 < n)
    {len : Nat} {out : Vector UInt8 n} (h : normalizePath cwd path buffer = .ok (len, out)) :
    Canonical 47 46 (used out len) := by
  have hpath : path ≠ "" := by
    rintro rfl
    rw [normalizePath, if_pos rfl] at h
    cases h
  obtain ⟨-, len', out', hok, -, hused⟩ | ⟨-, herr⟩ := normalizePath_spec cwd hpath buffer hn
  · rw [hok] at h
    cases h
    rw [hused]
    exact canonical_render (name_of_mem_walk (by simp) fun c hc => sep_notMem_of_mem_walkOf hc)
  · rw [herr] at h
    cases h

end Lazers.Storage
