import Mathlib.Data.List.Infix
import Mathlib.Data.List.TakeWhile
import Mathlib.Tactic.Common

/-!
# Paths as stacks of components

A slash-separated path, over any alphabet with a separator and a dot. Resolving a
path walks its components with a stack: an empty component and `.` change nothing,
`..` pops (and stays at the root), anything else is pushed.

- `walk`: the stack after a list of components.
- `Within`: what holds of the stack after every prefix of a walk.
- `render`: the path that names a stack, and `Canonical` the paths of this form.
- `walk_splitOn_render`: walking a rendered stack from the root gives it back.
-/

namespace PathStack

universe u

variable {β : Type u} {sep dot : β} {stack : List (List β)} {c : List β} {cs : List (List β)}

/-! ## Rendering -/

/-- The path that names a stack. -/
def render (sep : β) (stack : List (List β)) : List β :=
  if stack = [] then [sep] else stack.flatMap (sep :: ·)

theorem render_nil : render sep [] = [sep] := if_pos rfl

theorem render_of_ne_nil (h : stack ≠ []) : render sep stack = stack.flatMap (sep :: ·) :=
  if_neg h

theorem render_concat (init : List (List β)) :
    render sep (init ++ [c]) = init.flatMap (sep :: ·) ++ sep :: c := by
  rw [render_of_ne_nil (by simp), List.flatMap_append]
  simp

theorem render_push_nil : render sep [c] = render sep [] ++ c := by
  rw [render_of_ne_nil (List.cons_ne_nil _ _), render_nil]
  simp

theorem render_push (h : stack ≠ []) :
    render sep (stack ++ [c]) = render sep stack ++ sep :: c := by
  rw [render_concat, render_of_ne_nil h]

theorem render_ne_nil : render sep stack ≠ [] := by
  by_cases h : stack = []
  · rw [h, render_nil]
    exact List.cons_ne_nil _ _
  · obtain ⟨c, rest, rfl⟩ := List.exists_cons_of_ne_nil h
    rw [render_of_ne_nil h]
    exact List.cons_ne_nil _ _

theorem length_render_pos : 0 < (render sep stack).length := List.length_pos_iff.mpr render_ne_nil

theorem one_lt_length_render (hnames : ∀ c ∈ stack, c ≠ []) :
    1 < (render sep stack).length ↔ stack ≠ [] := by
  constructor
  · rintro h rfl
    rw [render_nil] at h
    exact absurd h (Nat.lt_irrefl 1)
  · intro h
    obtain ⟨c, rest, rfl⟩ := List.exists_cons_of_ne_nil h
    have hc : 0 < c.length := List.length_pos_iff.mpr (hnames c List.mem_cons_self)
    rw [render_of_ne_nil h, List.flatMap_cons, List.cons_append, List.length_cons,
      List.length_append]
    omega

theorem render_prefix_of_take (stack : List (List β)) (i : Nat) : render sep (stack.take i) <+: render sep stack := by
  by_cases hne : stack = []
  · rw [hne, List.take_nil]
  · by_cases htake : stack.take i = []
    · obtain ⟨c, rest, rfl⟩ := List.exists_cons_of_ne_nil hne
      rw [htake, render_nil, render_of_ne_nil hne]
      exact ⟨_, rfl⟩
    · rw [render_of_ne_nil htake, render_of_ne_nil hne]
      conv => rhs; rw [← List.take_append_drop i stack]
      rw [List.flatMap_append]
      exact List.prefix_append _ _

theorem length_render_dropLast_le : (render sep stack.dropLast).length ≤ (render sep stack).length := by
  rw [List.dropLast_eq_take]
  exact (render_prefix_of_take _ _).length_le

theorem flatMap_eq_intercalate (h : cs ≠ []) :
    cs.flatMap (sep :: ·) = sep :: [sep].intercalate cs := by
  induction cs with
  | nil => exact absurd rfl h
  | cons c rest ih =>
    cases rest with
    | nil => simp
    | cons d rest =>
      rw [List.flatMap_cons, ih (List.cons_ne_nil _ _), List.intercalate_cons_cons]
      simp

/-- A separator, and the components joined by it. -/
theorem render_eq_intercalate : render sep stack = sep :: [sep].intercalate stack := by
  by_cases h : stack = []
  · rw [h, render_nil]
    rfl
  · rw [render_of_ne_nil h, flatMap_eq_intercalate h]

variable [DecidableEq β]

/-! ## Walking -/

/-- One component. -/
def visit (dot : β) (stack : List (List β)) (c : List β) : List (List β) :=
  if c = [] ∨ c = [dot] then stack
  else if c = [dot, dot] then stack.dropLast
  else stack ++ [c]

def walk (dot : β) (stack : List (List β)) (cs : List (List β)) : List (List β) :=
  cs.foldl (visit dot) stack

@[simp] theorem walk_nil : walk dot stack [] = stack := rfl

@[simp] theorem walk_cons : walk dot stack (c :: cs) = walk dot (visit dot stack c) cs := rfl

theorem walk_append (cs' : List (List β)) :
    walk dot stack (cs ++ cs') = walk dot (walk dot stack cs) cs' := List.foldl_append

/-- A name: a component that is pushed. -/
structure Name (sep dot : β) (c : List β) : Prop where
  ne_nil : c ≠ []
  ne_dot : c ≠ [dot]
  ne_dots : c ≠ [dot, dot]
  sep_notMem : sep ∉ c

theorem Name.visit_eq (h : Name sep dot c) : visit dot stack c = stack ++ [c] := by
  rw [visit, if_neg (by simp [h.ne_nil, h.ne_dot]), if_neg h.ne_dots]

/-- What one component of a split path can do. -/
theorem visit_cases (dot : β) (stack : List (List β)) (hc : sep ∉ c) :
    ((c = [] ∨ c = [dot]) ∧ visit dot stack c = stack) ∨
      (c = [dot, dot] ∧ visit dot stack c = stack.dropLast) ∨
      (Name sep dot c ∧ visit dot stack c = stack ++ [c]) := by
  by_cases hskip : c = [] ∨ c = [dot]
  · exact .inl ⟨hskip, if_pos hskip⟩
  · by_cases hdots : c = [dot, dot]
    · refine .inr (.inl ⟨hdots, ?_⟩)
      rw [visit, if_neg hskip, if_pos hdots]
    · rw [not_or] at hskip
      have hname : Name sep dot c := ⟨hskip.1, hskip.2, hdots, hc⟩
      exact .inr (.inr ⟨hname, hname.visit_eq⟩)

/-- Only names get onto the stack, and they come from the components. -/
theorem name_of_mem_walk (hstack : ∀ c ∈ stack, Name sep dot c) (hcs : ∀ c ∈ cs, sep ∉ c) :
    ∀ c ∈ walk dot stack cs, Name sep dot c := by
  induction cs generalizing stack with
  | nil => exact hstack
  | cons d cs ih =>
    refine ih ?_ fun c hc => hcs c (List.mem_cons_of_mem _ hc)
    intro c hc
    obtain ⟨-, heq⟩ | ⟨-, heq⟩ | ⟨hname, heq⟩ :=
      visit_cases dot stack (hcs d List.mem_cons_self)
    · exact hstack c (heq ▸ hc)
    · exact hstack c (List.dropLast_subset _ (heq ▸ hc))
    · rw [heq, List.mem_append, List.mem_singleton] at hc
      obtain hc | rfl := hc
      · exact hstack c hc
      · exact hname

theorem mem_of_mem_walk (h : c ∈ walk dot stack cs) : c ∈ stack ∨ c ∈ cs := by
  induction cs generalizing stack with
  | nil => exact .inl h
  | cons d cs ih =>
    obtain hmem | hmem := ih h
    · rw [visit] at hmem
      split_ifs at hmem
      · exact .inl hmem
      · exact .inl (List.dropLast_subset _ hmem)
      · rw [List.mem_append, List.mem_singleton] at hmem
        obtain hmem | rfl := hmem
        · exact .inl hmem
        · exact .inr List.mem_cons_self
    · exact .inr (List.mem_cons_of_mem _ hmem)

theorem walk_names (h : ∀ c ∈ cs, Name sep dot c) : walk dot stack cs = stack ++ cs := by
  induction cs generalizing stack with
  | nil => simp
  | cons c cs ih =>
    rw [walk_cons, (h c List.mem_cons_self).visit_eq,
      ih fun d hd => h d (List.mem_cons_of_mem _ hd), List.append_assoc, List.singleton_append]

/-! ## Prefixes of a walk -/

/-- `P` holds of the stack after every prefix of the walk. -/
def Within (dot : β) (P : List (List β) → Prop) (stack cs : List (List β)) : Prop :=
  ∀ pre, pre <+: cs → P (walk dot stack pre)

variable {P : List (List β) → Prop}

theorem within_nil : Within dot P stack [] ↔ P stack := by
  constructor
  · intro h
    exact h [] List.nil_prefix
  · intro h pre hpre
    rw [List.prefix_nil.mp hpre]
    exact h

theorem within_cons :
    Within dot P stack (c :: cs) ↔ P stack ∧ Within dot P (visit dot stack c) cs := by
  constructor
  · intro h
    refine ⟨h [] List.nil_prefix, fun pre hpre => ?_⟩
    exact h (c :: pre) (List.cons_prefix_cons.mpr ⟨rfl, hpre⟩)
  · rintro ⟨hstack, h⟩ pre hpre
    cases pre with
    | nil => exact hstack
    | cons d pre =>
      obtain ⟨rfl, hrest⟩ := List.cons_prefix_cons.mp hpre
      exact h pre hrest

theorem Within.start (h : Within dot P stack cs) : P stack := h [] List.nil_prefix

theorem Within.finish (h : Within dot P stack cs) : P (walk dot stack cs) :=
  h cs (List.prefix_refl cs)

theorem within_append {cs' : List (List β)} :
    Within dot P stack (cs ++ cs') ↔
      Within dot P stack cs ∧ Within dot P (walk dot stack cs) cs' := by
  induction cs generalizing stack with
  | nil =>
    rw [List.nil_append, within_nil, walk_nil]
    exact ⟨fun h => ⟨h.start, h⟩, fun h => h.2⟩
  | cons c cs ih => rw [List.cons_append, within_cons, within_cons, walk_cons, ih, and_assoc]

instance [DecidablePred P] : Decidable (Within dot P stack cs) :=
  decidable_of_iff (∀ pre ∈ cs.inits, P (walk dot stack pre)) (by simp only [List.mem_inits, Within])

/-- If popping does no harm, only pushes can. -/
theorem within_iff_pushes (hpop : ∀ st, P st → P st.dropLast) (hcs : ∀ c ∈ cs, sep ∉ c) :
    Within dot P stack cs ↔ P stack ∧
      ∀ pre c, pre ++ [c] <+: cs → Name sep dot c → P (walk dot stack pre ++ [c]) := by
  induction cs generalizing stack with
  | nil =>
    rw [within_nil]
    refine ⟨fun h => ⟨h, fun pre c hpre => ?_⟩, And.left⟩
    simp at hpre
  | cons d cs ih =>
    rw [within_cons, ih fun c hc => hcs c (List.mem_cons_of_mem _ hc)]
    refine and_congr_right fun hstack => ?_
    have hvisit : P (visit dot stack d) ↔ (Name sep dot d → P (stack ++ [d])) := by
      obtain ⟨hskip, heq⟩ | ⟨hdots, heq⟩ | ⟨hname, heq⟩ :=
        visit_cases dot stack (hcs d List.mem_cons_self)
      · refine iff_of_true (by rwa [heq]) fun hname => ?_
        rcases hskip with hnil | hdot
        · exact absurd hnil hname.ne_nil
        · exact absurd hdot hname.ne_dot
      · exact iff_of_true (by rw [heq]; exact hpop _ hstack) fun hname =>
          absurd hdots hname.ne_dots
      · rw [heq]
        exact ⟨fun h _ => h, fun h => h hname⟩
    rw [hvisit]
    constructor
    · rintro ⟨hpush, hrest⟩ pre c hpre hname
      cases pre with
      | nil =>
        obtain ⟨rfl, -⟩ := List.cons_prefix_cons.mp hpre
        exact hpush hname
      | cons e pre =>
        obtain ⟨rfl, hpre'⟩ := List.cons_prefix_cons.mp hpre
        exact hrest pre c hpre' hname
    · intro h
      refine ⟨h [] d (List.cons_prefix_cons.mpr ⟨rfl, List.nil_prefix⟩), fun pre c hpre hname => ?_⟩
      exact h (d :: pre) c (List.cons_prefix_cons.mpr ⟨rfl, hpre⟩) hname

theorem within_and {Q : List (List β) → Prop} :
    Within dot (fun st => P st ∧ Q st) stack cs ↔
      Within dot P stack cs ∧ Within dot Q stack cs := by
  constructor
  · intro h
    exact ⟨fun pre hpre => (h pre hpre).1, fun pre hpre => (h pre hpre).2⟩
  · rintro ⟨hp, hq⟩ pre hpre
    exact ⟨hp pre hpre, hq pre hpre⟩

/-! ## Splitting what was rendered -/

theorem sep_notMem_of_mem_splitOn {path : List β} (h : c ∈ path.splitOn sep) : sep ∉ c := by
  induction path generalizing c with
  | nil =>
    rw [List.splitOn_nil, List.mem_singleton] at h
    rw [h]
    exact List.not_mem_nil
  | cons x path ih =>
    rw [List.splitOn_cons_eq_if_modifyHead] at h
    by_cases hx : x = sep
    · rw [if_pos (by simpa using hx), List.mem_cons] at h
      obtain rfl | h := h
      · exact List.not_mem_nil
      · exact ih h
    · rw [if_neg (by simpa using hx)] at h
      cases hs : path.splitOn sep with
      | nil => exact absurd hs (List.splitOn_ne_nil _ _)
      | cons d ds =>
        rw [hs] at ih h
        rw [List.modifyHead_cons, List.mem_cons] at h
        obtain rfl | h := h
        · rw [List.mem_cons, not_or]
          exact ⟨Ne.symm hx, ih List.mem_cons_self⟩
        · exact ih (List.mem_cons_of_mem _ h)

theorem splitOn_flatMap (h : ∀ c ∈ stack, sep ∉ c) :
    (stack.flatMap (sep :: ·)).splitOn sep = [] :: stack := by
  induction stack with
  | nil => rfl
  | cons c rest ih =>
    have hrest := ih fun d hd => h d (List.mem_cons_of_mem _ hd)
    rw [List.flatMap_cons, List.cons_append, List.splitOn_cons_eq_if_modifyHead, if_pos (by simp)]
    congr 1
    cases rest with
    | nil =>
      rw [List.flatMap_nil, List.append_nil]
      exact List.splitOn_eq_singleton (h c List.mem_cons_self)
    | cons d rest =>
      rw [List.flatMap_cons, List.cons_append, List.splitOn_cons_eq_if_modifyHead,
        if_pos (by simp)] at hrest
      rw [List.flatMap_cons, List.cons_append,
        List.splitOn_append_cons_self_of_not_mem (h c List.mem_cons_self)]
      exact congrArg _ (List.cons.inj hrest).2

/-- Splitting a rendered stack: an empty component, then the names (one more empty
component for the root). -/
theorem splitOn_render (h : ∀ c ∈ stack, sep ∉ c) :
    (render sep stack).splitOn sep = [] :: if stack = [] then [[]] else stack := by
  by_cases hne : stack = []
  · rw [if_pos hne, hne, render_nil, List.splitOn_cons_eq_if_modifyHead, if_pos (by simp),
      List.splitOn_nil]
  · rw [if_neg hne, render_of_ne_nil hne, splitOn_flatMap h]

/-! ### Segments

A scanner that skips separators and then takes a segment visits the same stacks as a
walk over the split path. -/

@[simp] theorem visit_nil : visit dot stack [] = stack := if_pos (.inl rfl)

theorem walk_splitOn_cons_sep {path : List β} :
    walk dot stack ((sep :: path).splitOn sep) = walk dot stack (path.splitOn sep) := by
  rw [List.splitOn_cons_eq_if_modifyHead, if_pos (by simp), walk_cons, visit_nil]

theorem within_splitOn_cons_sep {path : List β} :
    Within dot P stack ((sep :: path).splitOn sep) ↔ Within dot P stack (path.splitOn sep) := by
  rw [List.splitOn_cons_eq_if_modifyHead, if_pos (by simp), within_cons, visit_nil]
  exact ⟨And.right, fun h => ⟨h.start, h⟩⟩

theorem walk_splitOn_dropWhile (path : List β) :
    walk dot stack ((path.dropWhile (· = sep)).splitOn sep) =
      walk dot stack (path.splitOn sep) := by
  induction path with
  | nil => rfl
  | cons x path ih =>
    by_cases hx : x = sep
    · rw [List.dropWhile_cons_of_pos (by simpa using hx), ih, hx, walk_splitOn_cons_sep]
    · rw [List.dropWhile_cons_of_neg (by simpa using hx)]

theorem within_splitOn_dropWhile (path : List β) :
    Within dot P stack ((path.dropWhile (· = sep)).splitOn sep) ↔
      Within dot P stack (path.splitOn sep) := by
  induction path with
  | nil => rfl
  | cons x path ih =>
    by_cases hx : x = sep
    · rw [List.dropWhile_cons_of_pos (by simpa using hx), ih, hx, within_splitOn_cons_sep]
    · rw [List.dropWhile_cons_of_neg (by simpa using hx)]

theorem sep_notMem_takeWhile (sep : β) (path : List β) : sep ∉ path.takeWhile (· ≠ sep) := fun hmem => by
  simpa using List.mem_takeWhile_imp hmem

/-- Past a segment the rest is empty or begins with a separator. -/
theorem splitOn_takeWhile (sep dot : β) (P : List (List β) → Prop) (path : List β) :
    ∃ rest, path.splitOn sep = path.takeWhile (· ≠ sep) :: rest ∧
      (∀ st, walk dot st rest = walk dot st ((path.dropWhile (· ≠ sep)).splitOn sep)) ∧
      ∀ st, P st → (Within dot P st rest ↔
        Within dot P st ((path.dropWhile (· ≠ sep)).splitOn sep)) := by
  cases hrest : path.dropWhile (· ≠ sep) with
  | nil =>
    have hall : path.takeWhile (· ≠ sep) = path := by
      conv => rhs; rw [← List.takeWhile_append_dropWhile (p := fun x => decide (x ≠ sep)) (l := path)]
      rw [hrest, List.append_nil]
    refine ⟨[], ?_, fun st => by rw [List.splitOn_nil, walk_cons, visit_nil], fun st hst => ?_⟩
    · have hnot := sep_notMem_takeWhile sep path
      rw [hall] at hnot ⊢
      exact List.splitOn_eq_singleton hnot
    · rw [List.splitOn_nil, within_cons, visit_nil, within_nil]
      exact ⟨fun h => ⟨h, h⟩, And.right⟩
  | cons x rest =>
    have hx : x = sep := by
      have hhead := List.head?_dropWhile_not (fun x => decide (x ≠ sep)) path
      rw [hrest] at hhead
      simpa using hhead
    subst hx
    refine ⟨rest.splitOn x, ?_, fun st => walk_splitOn_cons_sep.symm,
      fun st _ => within_splitOn_cons_sep.symm⟩
    conv => lhs; rw [← List.takeWhile_append_dropWhile (p := fun y => decide (y ≠ x)) (l := path)]
    rw [hrest, List.splitOn_append_cons_self_of_not_mem (sep_notMem_takeWhile x path)]

theorem walk_splitOn_render (h : ∀ c ∈ stack, Name sep dot c) :
    walk dot [] ((render sep stack).splitOn sep) = stack := by
  rw [splitOn_render fun c hc => (h c hc).sep_notMem, walk_cons, visit_nil]
  by_cases hne : stack = []
  · rw [if_pos hne, walk_cons, visit_nil, hne]
    rfl
  · rw [if_neg hne, walk_names h, List.nil_append]

/-- On the way back the stack only grows. -/
theorem within_splitOn_render (h : ∀ c ∈ stack, Name sep dot c) (hP : ∀ i, P (stack.take i)) :
    Within dot P [] ((render sep stack).splitOn sep) := by
  have hnil : P [] := by simpa using hP 0
  rw [splitOn_render fun c hc => (h c hc).sep_notMem, within_cons, visit_nil]
  refine ⟨hnil, ?_⟩
  by_cases hne : stack = []
  · rw [if_pos hne, within_cons, visit_nil, within_nil]
    exact ⟨hnil, hnil⟩
  · rw [if_neg hne]
    intro pre hpre
    have htake : pre = stack.take pre.length := List.prefix_iff_eq_take.mp hpre
    rw [walk_names fun c hc => h c (hpre.subset hc), List.nil_append, htake]
    exact hP _

/-! ## Canonical paths -/

/-- Absolute, without empty, `.` and `..` components: no doubled separator, and none
at the end but for the root. -/
def Canonical (sep dot : β) (path : List β) : Prop :=
  path.head? = some sep ∧
    (path = [sep] ∨ ∀ c ∈ (path.splitOn sep).tail, c ≠ [] ∧ c ≠ [dot] ∧ c ≠ [dot, dot])

instance (path : List β) : Decidable (Canonical sep dot path) := inferInstanceAs (Decidable (_ ∧ _))

theorem canonical_render (h : ∀ c ∈ stack, Name sep dot c) :
    Canonical sep dot (render sep stack) := by
  by_cases hne : stack = []
  · rw [hne, render_nil]
    exact ⟨rfl, .inl rfl⟩
  · refine ⟨?_, .inr fun c hc => ?_⟩
    · obtain ⟨c, rest, rfl⟩ := List.exists_cons_of_ne_nil hne
      rw [render_of_ne_nil hne]
      rfl
    · rw [splitOn_render fun c hc => (h c hc).sep_notMem, if_neg hne, List.tail_cons] at hc
      exact ⟨(h c hc).ne_nil, (h c hc).ne_dot, (h c hc).ne_dots⟩

/-- The canonical paths are the rendered stacks of names. -/
theorem canonical_iff {path : List β} :
    Canonical sep dot path ↔ ∃ stack, (∀ c ∈ stack, Name sep dot c) ∧ path = render sep stack := by
  constructor
  · rintro ⟨hhead, hroot | hnames⟩
    · exact ⟨[], by simp, by rw [hroot, render_nil]⟩
    · obtain ⟨rest, rfl⟩ := List.head?_eq_some_iff.mp hhead
      rw [List.splitOn_cons_eq_if_modifyHead, if_pos (by simp), List.tail_cons] at hnames
      refine ⟨rest.splitOn sep, fun c hc => ?_, ?_⟩
      · obtain ⟨hnil, hdot, hdots⟩ := hnames c hc
        exact ⟨hnil, hdot, hdots, sep_notMem_of_mem_splitOn hc⟩
      · have hne := List.splitOn_ne_nil sep rest
        rw [render_of_ne_nil hne, flatMap_eq_intercalate hne, List.intercalate_splitOn]
  · rintro ⟨stack, hnames, rfl⟩
    exact canonical_render hnames

end PathStack
