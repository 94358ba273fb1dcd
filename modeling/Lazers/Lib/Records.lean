import Lazers.Lib.PathStack

/-!
# Records on lines

A list of pairs as text: one pair a line, the two parts separated by a mark. Reading such a text
cuts it at the line ends and each line at the first mark.

`read_write_iff`: if no first part has the mark in it, the pairs come back exactly if no part has
a line end in it.
-/

namespace Records

universe u

variable {α : Type u} [DecidableEq α] (stop mark : α)

/-- A pair on a line. -/
def write (ps : List (List α × List α)) : List α :=
  ps.flatMap fun p => p.1 ++ mark :: p.2 ++ [stop]

/-- The lines of a text. Each has its end, so nothing comes behind the last. -/
def lines (text : List α) : List (List α) := (text.splitOn stop).dropLast

/-- A line, cut at the first mark. -/
def cut (line : List α) : Option (List α × List α) :=
  if mark ∈ line then some (line.takeWhile (· ≠ mark), (line.dropWhile (· ≠ mark)).tail) else none

def read (text : List α) : Option (List (List α × List α)) := (lines stop text).mapM (cut mark)

variable {stop mark}

theorem cut_eq_some_iff {line : List α} {p : List α × List α} :
    cut mark line = some p ↔ line = p.1 ++ mark :: p.2 ∧ mark ∉ p.1 := by
  rw [cut]
  constructor
  · intro h
    split_ifs at h with hmark
    cases h
    refine ⟨?_, PathStack.sep_notMem_takeWhile mark line⟩
    dsimp only
    cases hrest : line.dropWhile (· ≠ mark) with
    | nil =>
      have hall := List.dropWhile_eq_nil_iff.mp hrest mark hmark
      simp at hall
    | cons a rest =>
      have hhead := List.head?_dropWhile_not (fun x => decide (x ≠ mark)) line
      rw [hrest] at hhead
      have ha : a = mark := by simpa using hhead
      rw [List.tail_cons, ← ha]
      conv => lhs; rw [← List.takeWhile_append_dropWhile (p := fun x => decide (x ≠ mark)) (l := line)]
      rw [hrest, ha]
  · rintro ⟨rfl, hnot⟩
    have hall : ∀ a ∈ p.1, decide (a ≠ mark) = true := by
      intro a ha
      simpa using fun heq : a = mark => hnot (heq ▸ ha)
    rw [if_pos (by simp), List.takeWhile_append_of_pos hall, List.dropWhile_append_of_pos hall]
    simp

/-- What was cut can be put together. -/
theorem eq_map_of_mapM_cut {ls : List (List α)} {ps : List (List α × List α)}
    (h : ls.mapM (cut mark) = some ps) : ls = ps.map fun p => p.1 ++ mark :: p.2 := by
  induction ls generalizing ps with
  | nil =>
    cases h
    rfl
  | cons l ls ih =>
    rw [List.mapM_cons, Option.bind_eq_bind, Option.bind_eq_some_iff] at h
    obtain ⟨p, hp, h⟩ := h
    rw [Option.bind_eq_bind, Option.bind_eq_some_iff] at h
    obtain ⟨rest, hrest, h⟩ := h
    cases h
    rw [List.map_cons, ← ih hrest, (cut_eq_some_iff.mp hp).1]

theorem mapM_cut {ps : List (List α × List α)} (h : ∀ p ∈ ps, mark ∉ p.1) :
    (ps.map fun p => p.1 ++ mark :: p.2).mapM (cut mark) = some ps := by
  induction ps with
  | nil => rfl
  | cons p rest ih =>
    rw [List.map_cons, List.mapM_cons, cut_eq_some_iff.mpr ⟨rfl, h p List.mem_cons_self⟩,
      ih fun q hq => h q (List.mem_cons_of_mem _ hq)]
    rfl

/-- Lines without a line end in them come back. -/
theorem lines_flatMap {ls : List (List α)} (h : ∀ l ∈ ls, stop ∉ l) :
    lines stop (ls.flatMap fun l => l ++ [stop]) = ls := by
  induction ls with
  | nil => rfl
  | cons l rest ih =>
    rw [lines, List.flatMap_cons, List.append_assoc, List.singleton_append,
      List.splitOn_append_cons_self_of_not_mem (h l List.mem_cons_self),
      List.dropLast_cons_of_ne_nil (List.splitOn_ne_nil _ _)]
    exact congrArg _ (ih fun l' hl' => h l' (List.mem_cons_of_mem _ hl'))

theorem lines_write {ps : List (List α × List α)} (hmark : stop ≠ mark)
    (h : ∀ p ∈ ps, stop ∉ p.1 ∧ stop ∉ p.2) :
    lines stop (write stop mark ps) = ps.map fun p => p.1 ++ mark :: p.2 := by
  have hwrite : write stop mark ps =
      (ps.map fun p => p.1 ++ mark :: p.2).flatMap fun l => l ++ [stop] := by
    rw [write, List.flatMap_map]
  rw [hwrite, lines_flatMap]
  intro l hl
  obtain ⟨p, hp, rfl⟩ := List.mem_map.mp hl
  simp [h p hp, hmark]

/-- **When the pairs come back.** -/
theorem read_write_iff {ps : List (List α × List α)} (hmark : stop ≠ mark)
    (h : ∀ p ∈ ps, mark ∉ p.1) :
    read stop mark (write stop mark ps) = some ps ↔ ∀ p ∈ ps, stop ∉ p.1 ∧ stop ∉ p.2 := by
  constructor
  · intro hread p hp
    -- no line has a line end in it
    have hlines := eq_map_of_mapM_cut hread
    have hmem : p.1 ++ mark :: p.2 ∈ lines stop (write stop mark ps) := by
      rw [hlines]
      exact List.mem_map_of_mem hp
    have hnot := PathStack.sep_notMem_of_mem_splitOn (List.dropLast_subset _ hmem)
    rw [List.mem_append, List.mem_cons, not_or, not_or] at hnot
    exact ⟨hnot.1, hnot.2.2⟩
  · intro hplain
    rw [read, lines_write hmark hplain]
    exact mapM_cut h

end Records
