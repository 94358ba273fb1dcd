import Lazers.Storage.Path

/-!
# Command paths in the shell (`lash/src/paths.rs`)

The shell resolves `where` arguments and command paths itself, against the cwd it
asks the kernel for. It keeps no record of components: `..` scans the output
backwards for the last slash.

- `NormalizedPath.Rep`: the output is a rendered stack of names.
- `normalizeCommandPath_spec`: it succeeds exactly when every prefix of the walk
  has a path of at most 256 bytes.
- `normalizeCommandPath_agrees`: against the kernel's `normalize_path`, which has a
  limit of 64 components on top.
-/

namespace Lazers.Lash

open FixedArray PathStack Storage

def lineCapacity : Nat := 256

inductive ResolutionError where
  | invalidPath
  | resourceUnavailable
deriving DecidableEq, Repr

structure NormalizedPath where
  bytes : Vector UInt8 lineCapacity
  len : Nat
deriving DecidableEq

namespace NormalizedPath

/-- `while len > 0 && output[len] != b'/' { len -= 1 }`. -/
def scanBack (output : Vector UInt8 lineCapacity) : Nat → Nat
  | 0 => 0
  | len + 1 => if output[len + 1]? ≠ some 47 then scanBack output len else len + 1

/-- `if len == 0 { output[0] = b'/'; len = 1; }`. -/
def orRoot (p : NormalizedPath) : NormalizedPath :=
  if p.len = 0 then ⟨p.bytes.setIfInBounds 0 47, 1⟩ else p

/-- The `..` branch. -/
def pop (p : NormalizedPath) : NormalizedPath :=
  if p.len > 1 then orRoot { p with len := scanBack p.bytes (p.len - 1) } else p

/-- `output[len..len + segment_bytes.len()].copy_from_slice(segment_bytes)`, with its
check. -/
def append (p : NormalizedPath) (segment : List UInt8) : Except ResolutionError NormalizedPath :=
  if p.len + segment.length > lineCapacity then .error .resourceUnavailable
  else .ok ⟨writeAt p.bytes p.len segment, p.len + segment.length⟩

/-- The rest of the loop body, for a segment that is a name. -/
def push (p : NormalizedPath) (segment : List UInt8) : Except ResolutionError NormalizedPath := do
  let p := p.orRoot
  let p ←
    if p.len > 1 ∧ p.bytes[p.len - 1]? ≠ some 47 then
      if p.len ≥ lineCapacity then .error .resourceUnavailable
      else .ok ⟨p.bytes.setIfInBounds p.len 47, p.len + 1⟩
    else .ok p
  p.append segment

/-- One segment of the input. -/
def visitSegment (p : NormalizedPath) (segment : List UInt8) :
    Except ResolutionError NormalizedPath :=
  if segment = strBytes "." then .ok p
  else if segment = strBytes ".." then .ok p.pop
  else p.push segment

section

variable {bytes rest : List UInt8} {b : UInt8}

theorem ne_slash_of_dropWhile (h : bytes.dropWhile (· = 47) = b :: rest) : b ≠ 47 := by
  have hhead := List.head?_dropWhile_not (fun x : UInt8 => decide (x = 47)) bytes
  rw [h] at hhead
  simpa using hhead

theorem segment_ne_nil (h : bytes.dropWhile (· = 47) = b :: rest) :
    (b :: rest).takeWhile (· ≠ 47) ≠ [] := by
  rw [List.takeWhile_cons_of_pos (by simpa using ne_slash_of_dropWhile h)]
  exact List.cons_ne_nil _ _

theorem length_segment_rest_lt (h : bytes.dropWhile (· = 47) = b :: rest) :
    ((b :: rest).dropWhile (· ≠ 47)).length < bytes.length := by
  have hle := (List.dropWhile_sublist (fun x => decide (x = 47)) (l := bytes)).length_le
  have hrest := (List.dropWhile_sublist (fun x : UInt8 => decide (x ≠ 47)) (l := rest)).length_le
  rw [h, List.length_cons] at hle
  rw [List.dropWhile_cons_of_pos (by simpa using ne_slash_of_dropWhile h)]
  omega

end

/-- The loop over the input, on `bytes[index..]`. -/
def visitSegments (p : NormalizedPath) (bytes : List UInt8) :
    Except ResolutionError NormalizedPath :=
  match _h : bytes.dropWhile (· = 47) with
  | [] => .ok p
  | b :: rest =>
    match p.visitSegment ((b :: rest).takeWhile (· ≠ 47)) with
    | .error e => .error e
    | .ok p => p.visitSegments ((b :: rest).dropWhile (· ≠ 47))
termination_by bytes.length
decreasing_by exact length_segment_rest_lt _h

end NormalizedPath

/-- `Shell::normalize_command_path`. `getcwd` is the system call on the shell's buffer:
the new contents and the length, or an error nobody looks at. -/
def normalizeCommandPath {ε : Type*}
    (getcwd : Vector UInt8 lineCapacity → Except ε (Nat × Vector UInt8 lineCapacity))
    (shellCwd : Vector UInt8 lineCapacity) (input : String) :
    Except ResolutionError NormalizedPath :=
  match getcwd shellCwd with
  | .error _ => .error .resourceUnavailable
  | .ok (len, shellCwd) =>
    let cwd := (fromUtf8 (used shellCwd len)).getD "/"
    let output := Vector.replicate lineCapacity 0
    if isAbsolute input then
      (NormalizedPath.visitSegments ⟨output.setIfInBounds 0 47, 1⟩ (strBytes input)).map
        NormalizedPath.orRoot
    else if (strBytes cwd).length > lineCapacity then .error .resourceUnavailable
    else
      (NormalizedPath.visitSegments ⟨writeAt output 0 (strBytes cwd), (strBytes cwd).length⟩
        (strBytes input)).map NormalizedPath.orRoot

/-! ## The stack behind the output -/

namespace NormalizedPath

/-- **Representation**: the output names the stack. -/
structure Rep (p : NormalizedPath) (stack : List (List UInt8)) : Prop where
  names : ∀ c ∈ stack, Name 47 46 c
  used_eq : used p.bytes p.len = render 47 stack
  len_le : p.len ≤ lineCapacity

/-- Stacks the output has room for. -/
def HasRoom (stack : List (List UInt8)) : Prop := (render 47 stack).length ≤ lineCapacity

variable {p : NormalizedPath} {stack : List (List UInt8)}

theorem Rep.len_eq (h : p.Rep stack) : p.len = (render 47 stack).length := by
  rw [← h.used_eq, length_used _ h.len_le]

theorem Rep.hasRoom (h : p.Rep stack) : HasRoom stack := by
  rw [HasRoom, ← h.len_eq]
  exact h.len_le

theorem Rep.getElem? (h : p.Rep stack) {i : Nat} (hi : i < p.len) :
    p.bytes[i]? = (render 47 stack)[i]? := by
  rw [← h.used_eq, getElem?_used _ hi]

theorem Rep.orRoot_eq (h : p.Rep stack) : p.orRoot = p := by
  have hpos : 0 < (render 47 stack).length := length_render_pos
  exact if_neg (by rw [h.len_eq]; omega)

/-- The scan stops at the last slash. -/
theorem scanBack_eq {output : Vector UInt8 lineCapacity} {len k : Nat} (hk : k ≤ len)
    (hstop : k = 0 ∨ output[k]? = some 47) (hskip : ∀ j, k < j → j ≤ len → output[j]? ≠ some 47) :
    scanBack output len = k := by
  induction len with
  | zero => rw [scanBack]; omega
  | succ len ih =>
    rw [scanBack]
    by_cases hlast : k = len + 1
    · obtain hzero | hslash := hstop
      · omega
      · rw [← hlast, if_neg (not_not.mpr hslash)]
    · rw [if_pos (hskip _ (by omega) (Nat.le_refl _))]
      exact ih (by omega) fun j hj hle => hskip j hj (by omega)

/-- `..` cuts the output back to before its last name. -/
theorem Rep.pop (h : p.Rep stack) : p.pop.Rep stack.dropLast := by
  rw [NormalizedPath.pop]
  obtain rfl | ⟨init, c, rfl⟩ := List.eq_nil_or_concat stack
  · have hone : p.len = 1 := h.len_eq
    rw [if_neg (by omega)]
    exact h
  · have hc := h.names c (by simp)
    have hpos : 0 < c.length := List.length_pos_iff.mpr hc.ne_nil
    rw [List.concat_eq_append] at h ⊢
    rw [List.dropLast_concat]
    have hlen : p.len = (init.flatMap (47 :: ·)).length + (c.length + 1) := by
      rw [h.len_eq, render_concat, List.length_append, List.length_cons]
    have hget : ∀ j < p.len, p.bytes[j]? = (init.flatMap (47 :: ·) ++ 47 :: c)[j]? := by
      intro j hj
      rw [h.getElem? hj, render_concat]
    have hscan : scanBack p.bytes (p.len - 1) = (init.flatMap (47 :: ·)).length := by
      refine scanBack_eq (by omega) (.inr ?_) fun j hj hle => ?_
      · rw [hget _ (by omega), List.getElem?_append_right (Nat.le_refl _), Nat.sub_self]
        rfl
      · obtain ⟨i, rfl⟩ : ∃ i, j = (init.flatMap (47 :: ·)).length + 1 + i := 
          ⟨j - (init.flatMap (47 :: ·)).length - 1, by omega⟩
        rw [hget _ (by omega), List.getElem?_append_right (by omega),
          show (init.flatMap (47 :: ·)).length + 1 + i - (init.flatMap (47 :: ·)).length = i + 1 by
            omega, List.getElem?_cons_succ]
        exact fun hslash => hc.sep_notMem (List.mem_of_getElem? hslash)
    rw [if_pos (by omega), hscan]
    have hnames : ∀ d ∈ init, Name 47 46 d := fun d hd => h.names d (by simp [hd])
    by_cases hinit : init = []
    · subst hinit
      change Rep ⟨p.bytes.setIfInBounds 0 47, 1⟩ []
      exact ⟨hnames, used_push _ (by decide), (by decide : 1 ≤ lineCapacity)⟩
    · have hpos : 0 < (init.flatMap ((47 : UInt8) :: ·)).length := by
        rw [← render_of_ne_nil hinit]
        exact length_render_pos
      rw [orRoot, if_neg (by dsimp only; omega)]
      refine ⟨hnames, ?_, by have := h.len_le; dsimp only; omega⟩
      dsimp only
      rw [used_take _ (by omega : _ ≤ p.len), h.used_eq, render_concat, List.take_left,
        render_of_ne_nil hinit]

/-- The last byte of a name is no slash. -/
theorem Rep.getElem?_last (h : p.Rep stack) (hne : stack ≠ []) :
    p.bytes[p.len - 1]? ≠ some 47 := by
  obtain rfl | ⟨init, c, rfl⟩ := List.eq_nil_or_concat stack
  · exact absurd rfl hne
  · rw [List.concat_eq_append] at h
    have hc := h.names c (by simp)
    have hpos : 0 < c.length := List.length_pos_iff.mpr hc.ne_nil
    have hlen : p.len = (init.flatMap (47 :: ·)).length + (c.length + 1) := by
      rw [h.len_eq, render_concat, List.length_append, List.length_cons]
    rw [h.getElem? (by omega), render_concat, List.getElem?_append_right (by omega),
      show p.len - 1 - (init.flatMap (47 :: ·)).length = c.length - 1 + 1 by omega,
      List.getElem?_cons_succ]
    exact fun hslash => hc.sep_notMem (List.mem_of_getElem? hslash)

/-- A name goes behind the output, if there is room. -/
theorem Rep.push_spec (h : p.Rep stack) {c : List UInt8} (hc : Name 47 46 c) :
    (HasRoom (stack ++ [c]) ∧ ∃ p', p.push c = .ok p' ∧ p'.Rep (stack ++ [c])) ∨
      (¬ HasRoom (stack ++ [c]) ∧ p.push c = .error .resourceUnavailable) := by
  have hnames : ∀ d ∈ stack ++ [c], Name 47 46 d := by
    intro d hd
    rw [List.mem_append, List.mem_singleton] at hd
    obtain hd | rfl := hd
    · exact h.names d hd
    · exact hc
  have hpos : 0 < c.length := List.length_pos_iff.mpr hc.ne_nil
  rw [NormalizedPath.push, h.orRoot_eq, HasRoom]
  by_cases hne : stack = []
  · have hone : p.len = 1 := by rw [h.len_eq, hne]; rfl
    have hrender : render 47 (stack ++ [c]) = render 47 stack ++ c := by
      rw [hne]
      exact render_push_nil
    rw [hrender, List.length_append, ← h.len_eq, if_neg (fun hcond => by omega)]
    change (_ ∧ ∃ p', p.append c = .ok p' ∧ _) ∨ (_ ∧ p.append c = _)
    rw [append]
    by_cases hfull : p.len + c.length > lineCapacity
    · rw [if_pos hfull]
      exact .inr ⟨Nat.not_le_of_gt hfull, rfl⟩
    · rw [if_neg hfull]
      refine .inl ⟨Nat.le_of_not_gt hfull, _, rfl, hnames, ?_, Nat.le_of_not_gt hfull⟩
      rw [used_writeAt _ _ (Nat.le_of_not_gt hfull), h.used_eq, hrender]
  · have hlen : 1 < p.len := by
      rw [h.len_eq]
      exact (one_lt_length_render fun d hd => (h.names d hd).ne_nil).mpr hne
    have hrender : render 47 (stack ++ [c]) = render 47 stack ++ 47 :: c := render_push hne
    rw [hrender, List.length_append, List.length_cons, ← h.len_eq,
      if_pos ⟨hlen, h.getElem?_last hne⟩]
    by_cases hslash : p.len ≥ lineCapacity
    · rw [if_pos hslash]
      exact .inr ⟨by omega, rfl⟩
    · rw [if_neg hslash]
      change (_ ∧ ∃ p', append ⟨p.bytes.setIfInBounds p.len 47, p.len + 1⟩ c = .ok p' ∧ _) ∨
        (_ ∧ append ⟨p.bytes.setIfInBounds p.len 47, p.len + 1⟩ c = _)
      rw [append]
      by_cases hfull : p.len + 1 + c.length > lineCapacity
      · rw [if_pos hfull]
        exact .inr ⟨by omega, rfl⟩
      · rw [if_neg hfull]
        refine .inl ⟨by omega, _, rfl, hnames, ?_, Nat.le_of_not_gt hfull⟩
        dsimp only
        rw [used_writeAt _ _ (Nat.le_of_not_gt hfull), used_push _ (Nat.lt_of_not_le hslash),
          h.used_eq, hrender, List.append_assoc, List.singleton_append]

/-- **One segment**: the stack visits it, if there is room. -/
theorem Rep.visitSegment_spec (h : p.Rep stack) {c : List UInt8} (hne : c ≠ [])
    (hc : 47 ∉ c) :
    (HasRoom (visit 46 stack c) ∧
      ∃ p', p.visitSegment c = .ok p' ∧ p'.Rep (visit 46 stack c)) ∨
    (¬ HasRoom (visit 46 stack c) ∧ p.visitSegment c = .error .resourceUnavailable) := by
  rw [visitSegment, strBytes_dot, strBytes_dots]
  obtain ⟨hskip, heq⟩ | ⟨hdots, heq⟩ | ⟨hname, heq⟩ := visit_cases 46 stack hc
  · rw [heq, if_pos (hskip.resolve_left hne)]
    exact .inl ⟨h.hasRoom, p, rfl, h⟩
  · rw [heq, hdots, if_neg (by decide), if_pos rfl]
    exact .inl ⟨h.pop.hasRoom, _, rfl, h.pop⟩
  · rw [heq, if_neg hname.ne_dot, if_neg hname.ne_dots]
    exact h.push_spec hname

/-- **The whole loop**, by induction on the scan. -/
theorem Rep.visitSegments_spec (bytes : List UInt8) (h : p.Rep stack) :
    (Within 46 HasRoom stack (bytes.splitOn 47) ∧
      ∃ p', p.visitSegments bytes = .ok p' ∧ p'.Rep (walk 46 stack (bytes.splitOn 47))) ∨
    (¬ Within 46 HasRoom stack (bytes.splitOn 47) ∧
      p.visitSegments bytes = .error .resourceUnavailable) := by
  induction p, bytes using visitSegments.induct generalizing stack with
  | case1 p bytes hdrop =>
    rw [← walk_splitOn_dropWhile, ← within_splitOn_dropWhile, visitSegments, hdrop]
    rw [List.splitOn_nil, within_cons, visit_nil, within_nil, walk_cons, visit_nil, walk_nil]
    exact .inl ⟨⟨h.hasRoom, h.hasRoom⟩, p, rfl, h⟩
  | case2 p bytes b rest hdrop e herr =>
    rw [← walk_splitOn_dropWhile, ← within_splitOn_dropWhile, visitSegments, hdrop]
    obtain ⟨pieces, hsplit, -, -⟩ := splitOn_takeWhile 47 46 HasRoom (b :: rest)
    rw [hsplit, within_cons]
    obtain ⟨-, p', hok, -⟩ | ⟨hroom, herr'⟩ :=
      h.visitSegment_spec (segment_ne_nil hdrop) (sep_notMem_takeWhile 47 (b :: rest))
    · rw [hok] at herr
      cases herr
    · dsimp only
      rw [herr']
      exact .inr ⟨fun hin => hroom hin.2.start, rfl⟩
  | case3 p bytes b rest hdrop p' hok ih =>
    rw [← walk_splitOn_dropWhile, ← within_splitOn_dropWhile, visitSegments, hdrop]
    obtain ⟨pieces, hsplit, hwalk, hwithin⟩ := splitOn_takeWhile 47 46 HasRoom (b :: rest)
    rw [hsplit, within_cons, walk_cons, hwalk]
    obtain ⟨hroom, p'', hok', hrep⟩ | ⟨-, herr⟩ :=
      h.visitSegment_spec (segment_ne_nil hdrop) (sep_notMem_takeWhile 47 (b :: rest))
    · rw [hok] at hok'
      cases hok'
      dsimp only
      rw [hok, hwithin _ hroom]
      obtain ⟨hin, hrest⟩ | ⟨hout, hrest⟩ := ih hrep
      · exact .inl ⟨⟨h.hasRoom, hin⟩, hrest⟩
      · exact .inr ⟨fun hin => hout hin.2, hrest⟩
    · rw [hok] at herr
      cases herr

/-- Up to the base of the walk and the closing `len == 0` check, this is
`normalize_command_path`. -/
theorem Rep.visitSegments_orRoot (h : p.Rep stack) (bytes : List UInt8) :
    (Within 46 HasRoom stack (bytes.splitOn 47) ∧
      ∃ p', (p.visitSegments bytes).map orRoot = .ok p' ∧
        p'.Rep (walk 46 stack (bytes.splitOn 47))) ∨
    (¬ Within 46 HasRoom stack (bytes.splitOn 47) ∧
      (p.visitSegments bytes).map orRoot = .error .resourceUnavailable) := by
  obtain ⟨hin, p', hok, hrep⟩ | ⟨hout, herr⟩ := h.visitSegments_spec bytes
  · refine .inl ⟨hin, p', ?_, hrep⟩
    rw [hok, Except.map, hrep.orRoot_eq]
  · refine .inr ⟨hout, ?_⟩
    rw [herr, Except.map]

end NormalizedPath

/-! ## Shell and kernel -/

open NormalizedPath

section

variable {ε : Type*}
  {getcwd : Vector UInt8 lineCapacity → Except ε (Nat × Vector UInt8 lineCapacity)}
  {shellCwd : Vector UInt8 lineCapacity} {cwd input : String}

/-- Walking a canonical cwd, every path on the way is one of its prefixes. -/
theorem within_hasRoom_cwd {stack : List (List UInt8)} (hnames : ∀ c ∈ stack, Name 47 46 c)
    (hlen : (render 47 stack).length ≤ lineCapacity) :
    Within 46 HasRoom [] ((render 47 stack).splitOn 47) :=
  within_splitOn_render hnames fun i =>
    Nat.le_trans (render_prefix_of_take stack i).length_le hlen

/-- **The shell's normaliser**, over the walk the kernel makes from the root. -/
theorem normalizeCommandPath_spec (input : String) (hcwd : Canonical 47 46 (strBytes cwd))
    (hlen : (strBytes cwd).length ≤ lineCapacity)
    (hgetcwd : ∃ len buffer, getcwd shellCwd = .ok (len, buffer) ∧
      used buffer len = strBytes cwd) :
    (Within 46 HasRoom [] (walkOf cwd input) ∧
      ∃ p, normalizeCommandPath getcwd shellCwd input = .ok p ∧
        p.Rep (walk 46 [] (walkOf cwd input))) ∨
    (¬ Within 46 HasRoom [] (walkOf cwd input) ∧
      normalizeCommandPath getcwd shellCwd input = .error .resourceUnavailable) := by
  obtain ⟨len, buffer, hget, hused⟩ := hgetcwd
  have htext : (fromUtf8 (used buffer len)).getD "/" = cwd := by
    rw [hused, fromUtf8_strBytes]
    rfl
  rw [normalizeCommandPath, hget, walkOf]
  dsimp only
  rw [htext]
  by_cases habs : isAbsolute input
  · rw [if_pos habs, if_pos habs]
    refine Rep.visitSegments_orRoot ⟨by simp, ?_, (by decide : 1 ≤ lineCapacity)⟩ _
    exact used_push _ (by decide)
  · rw [if_neg habs, if_neg habs, if_neg (Nat.not_lt.mpr hlen), within_append, walk_append]
    obtain ⟨stack, hnames, hrender⟩ := canonical_iff.mp hcwd
    rw [hrender] at hlen ⊢
    rw [walk_splitOn_render hnames, and_iff_right (within_hasRoom_cwd hnames hlen)]
    refine Rep.visitSegments_orRoot ⟨hnames, ?_, hlen⟩ _
    have hwrite := used_writeAt (Vector.replicate lineCapacity (0 : UInt8)) 0
      (l := render 47 stack) (by omega)
    rwa [Nat.zero_add, used_zero, List.nil_append] at hwrite

/-- **Shell and kernel resolve paths alike.** Whatever the kernel's normaliser accepts, the
shell's gives the same bytes for; and where only the shell's succeeds, the walk has a
prefix with more than 64 components. -/
theorem normalizeCommandPath_agrees (hcwd : Canonical 47 46 (strBytes cwd))
    (hlen : (strBytes cwd).length ≤ lineCapacity) (hinput : input ≠ "")
    (hgetcwd : ∃ len buffer, getcwd shellCwd = .ok (len, buffer) ∧
      used buffer len = strBytes cwd)
    (buffer : Vector UInt8 lineCapacity) :
    (∀ len out, normalizePath cwd input buffer = .ok (len, out) →
      ∃ p, normalizeCommandPath getcwd shellCwd input = .ok p ∧ p.len = len ∧
        used p.bytes p.len = used out len) ∧
    ∀ p, normalizeCommandPath getcwd shellCwd input = .ok p →
      ((∃ e, normalizePath cwd input buffer = .error e) ↔
        ∃ pre, pre <+: walkOf cwd input ∧ maxPathComponents < (walk 46 [] pre).length) := by
  have hshell := normalizeCommandPath_spec input hcwd hlen hgetcwd
  have hfits : Within 46 (Fits lineCapacity) [] (walkOf cwd input) ↔
      Within 46 (fun st => st.length ≤ maxPathComponents) [] (walkOf cwd input) ∧
        Within 46 HasRoom [] (walkOf cwd input) := within_and
  have hlimit : ¬ Within 46 (fun st => st.length ≤ maxPathComponents) [] (walkOf cwd input) ↔
      ∃ pre, pre <+: walkOf cwd input ∧ maxPathComponents < (walk 46 [] pre).length := by
    simp only [Within, not_forall, Nat.not_le, exists_prop]
  obtain ⟨hin, len, out, hok, hle, hused⟩ | ⟨hout, herr⟩ :=
    normalizePath_spec cwd hinput buffer (by decide)
  · rw [hok]
    constructor
    · intro len' out' heq
      cases heq
      obtain ⟨-, p, hp, hrep⟩ | ⟨hroom, -⟩ := hshell
      · refine ⟨p, hp, ?_, by rw [hrep.used_eq, hused]⟩
        rw [hrep.len_eq, ← hused, length_used _ hle]
      · exact absurd (hfits.mp hin).2 hroom
    · intro p _
      rw [← hlimit]
      constructor
      · rintro ⟨e, he⟩
        cases he
      · intro hlong
        exact absurd (hfits.mp hin).1 hlong
  · rw [herr]
    constructor
    · intro len out heq
      cases heq
    · intro p hp
      rw [← hlimit]
      obtain ⟨hroom, -⟩ | ⟨-, hshellErr⟩ := hshell
      · exact ⟨fun _ hshort => hout (hfits.mpr ⟨hshort, hroom⟩), fun _ => ⟨_, rfl⟩⟩
      · rw [hp] at hshellErr
        cases hshellErr

end

/-- A `getcwd` that finds `/system/bin`. -/
def getcwdSystemBin (buffer : Vector UInt8 lineCapacity) :
    Except Unit (Nat × Vector UInt8 lineCapacity) :=
  .ok (11, writeAt buffer 0 (strBytes "/system/bin"))

theorem normalizeCommandPath_agrees_at_parent :
    ∃ p, normalizeCommandPath getcwdSystemBin (Vector.replicate lineCapacity 0) "../cat" = .ok p ∧
      used p.bytes p.len = strBytes "/system/cat" := by
  have hkernel : (normalizePath "/system/bin" "../cat"
      (Vector.replicate lineCapacity 0)).toOption.map (fun r => used r.2 r.1) =
        some (strBytes "/system/cat") := by
    decide +kernel
  have hget : ∃ len buffer, getcwdSystemBin (Vector.replicate lineCapacity 0) = .ok (len, buffer) ∧
      used buffer len = strBytes "/system/bin" := ⟨11, _, rfl, by decide +kernel⟩
  have hinput : "../cat" ≠ "" := by decide
  have hagree := (normalizeCommandPath_agrees (by decide +kernel) (by decide +kernel) hinput hget
    (Vector.replicate lineCapacity 0)).1
  cases hrun : normalizePath "/system/bin" "../cat" (Vector.replicate lineCapacity 0) with
  | error e =>
    rw [hrun] at hkernel
    cases hkernel
  | ok r =>
    obtain ⟨p, hp, -, hbytes⟩ := hagree r.1 r.2 hrun
    rw [hrun] at hkernel
    exact ⟨p, hp, hbytes.trans (Option.some.inj hkernel)⟩

end Lazers.Lash
