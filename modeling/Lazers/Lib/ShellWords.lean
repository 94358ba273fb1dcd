import Mathlib.Data.List.TakeWhile
import Mathlib.Tactic.Common

/-!
# Words with quotes and escapes

Reading a line into words, as shells do. A separator ends a word outside quotes, quotes keep
separators, and an escape keeps the symbol behind it, except in single quotes.

`Marks` says which symbols play these parts, and `read` goes over a line from left to right,
one symbol at a time. A line is `Closed` if it ends outside quotes and not behind an escape.

- `read_le`, `Fits.mono`: what was read stays, so a reader that holds too much is lost.
- `closed_trim`: separators around a closed line can be dropped, except that the first one
  behind it may belong to an escape; then what is left ends in an odd number of escapes.
- `all_read`: what is read are the `words` of the line, its maximal runs without separators, less
  the marks.
- `read_flatMap`: reading commutes with a spelling of the symbols that keeps the marks apart.
-/

namespace ShellWords

universe u

variable {α : Type u}

inductive Mode where
  | unquoted
  | singleQuoted
  | doubleQuoted
deriving DecidableEq, Repr

/-- The symbols with a meaning of their own. -/
structure Marks (α : Type u) where
  space : α
  single : α
  double : α
  escape : α
  nodup : [space, single, double, escape].Nodup

/-- Where a reader stands: whether it is behind an escape, the finished words, and the word it
has begun. -/
@[ext]
structure Reader (α : Type u) where
  mode : Mode
  pending : Bool
  words : List (List α)
  word : Option (List α)
deriving DecidableEq, Repr

namespace Reader

/-- The reader at the start of a line. -/
def start : Reader α := ⟨.unquoted, false, [], none⟩

/-- A word is begun, if it is not already. -/
def begin (r : Reader α) : Reader α := { r with word := some (r.word.getD []) }

def push (r : Reader α) (a : α) : Reader α := { r with word := some (r.word.getD [] ++ [a]) }

def finish (r : Reader α) : Reader α := { r with words := r.words ++ r.word.toList, word := none }

/-- All words, finished or not. -/
def all (r : Reader α) : List (List α) := r.words ++ r.word.toList

theorem all_finish (r : Reader α) : r.finish.all = r.all := by
  simp [all, finish]

theorem push_begin (r : Reader α) (a : α) : r.begin.push a = r.push a := by
  simp [begin, push]

/-! ### Size -/

/-- The second reader holds at least as many words and symbols. -/
def Le (r r' : Reader α) : Prop :=
  r.all.length ≤ r'.all.length ∧ r.all.flatten.length ≤ r'.all.flatten.length

theorem Le.of_eq {r r' : Reader α} (h : r.all = r'.all) : r.Le r' := by
  rw [Le, h]
  exact ⟨Nat.le_refl _, Nat.le_refl _⟩

theorem Le.trans {r r' r'' : Reader α} (h : r.Le r') (h' : r'.Le r'') : r.Le r'' :=
  ⟨Nat.le_trans h.1 h'.1, Nat.le_trans h.2 h'.2⟩

theorem le_begin (r : Reader α) : r.Le r.begin := by
  obtain ⟨mode, pending, words, word⟩ := r
  cases word <;> simp [Le, all, begin]

theorem le_push (r : Reader α) (a : α) : r.Le (r.push a) := by
  obtain ⟨mode, pending, words, word⟩ := r
  cases word <;> simp [Le, all, push]

/-- At most so many words of so many symbols together. -/
def Fits (maxWords maxSymbols : Nat) (r : Reader α) : Prop :=
  r.all.length ≤ maxWords ∧ r.all.flatten.length ≤ maxSymbols

instance (maxWords maxSymbols : Nat) (r : Reader α) : Decidable (r.Fits maxWords maxSymbols) :=
  inferInstanceAs (Decidable (_ ∧ _))

theorem Fits.mono {maxWords maxSymbols : Nat} {r r' : Reader α} (hle : r.Le r')
    (h : r'.Fits maxWords maxSymbols) : r.Fits maxWords maxSymbols :=
  ⟨Nat.le_trans hle.1 h.1, Nat.le_trans hle.2 h.2⟩

/-! ### Other symbols -/

section Spell

variable {β : Type u} {e : β → List α}

/-- Every symbol spelled out. -/
def spell (e : β → List α) (r : Reader β) : Reader α :=
  ⟨r.mode, r.pending, r.words.map (·.flatMap e), r.word.map (·.flatMap e)⟩

theorem all_spell (r : Reader β) : (r.spell e).all = r.all.map (·.flatMap e) := by
  obtain ⟨mode, pending, words, word⟩ := r
  cases word <;> simp [all, spell]

theorem push_spell {r : Reader β} {b : β} {a : α} (h : e b = [a]) :
    (r.spell e).push a = (r.push b).spell e := by
  obtain ⟨mode, pending, words, word⟩ := r
  cases word <;> simp [push, spell, h]

theorem begin_spell (r : Reader β) : (r.spell e).begin = r.begin.spell e := by
  obtain ⟨mode, pending, words, word⟩ := r
  cases word <;> simp [begin, spell]

theorem finish_spell (r : Reader β) : (r.spell e).finish = r.finish.spell e := by
  obtain ⟨mode, pending, words, word⟩ := r
  cases word <;> simp [finish, spell]

end Spell

end Reader

open Reader

variable [DecidableEq α] (M : Marks α)

/-- One symbol. -/
def step (r : Reader α) (a : α) : Reader α :=
  if r.pending then { r.push a with pending := false }
  else
    match r.mode with
    | .unquoted =>
      if a = M.space then r.finish
      else if a = M.single then { r.begin with mode := .singleQuoted }
      else if a = M.double then { r.begin with mode := .doubleQuoted }
      else if a = M.escape then { r with pending := true }
      else r.push a
    | .singleQuoted => if a = M.single then { r with mode := .unquoted } else r.push a
    | .doubleQuoted =>
      if a = M.double then { r with mode := .unquoted }
      else if a = M.escape then { r with pending := true }
      else r.push a

/-- **Reading a line.** -/
def read (l : List α) : Reader α := l.foldl (step M) start

/-- A line that ends outside quotes and not behind an escape. -/
def Closed (l : List α) : Prop := (read M l).mode = .unquoted ∧ (read M l).pending = false

instance (l : List α) : Decidable (Closed M l) := inferInstanceAs (Decidable (_ ∧ _))

theorem le_step (r : Reader α) (a : α) : r.Le (step M r a) := by
  rw [step]
  split
  · exact le_push r a
  · split
    · split_ifs
      · exact .of_eq (all_finish r).symm
      · exact le_begin r
      · exact le_begin r
      · exact .of_eq rfl
      · exact le_push r a
    · split_ifs
      · exact .of_eq rfl
      · exact le_push r a
    · split_ifs
      · exact .of_eq rfl
      · exact .of_eq rfl
      · exact le_push r a

/-- The symbol behind an escape is kept. -/
theorem step_escaped {r : Reader α} (hpending : r.pending = false) (a : α) :
    step M { r with pending := true } a = r.push a := by
  obtain ⟨mode, pending, words, word⟩ := r
  cases hpending
  rfl

/-- A reader never gives up what it holds. -/
theorem le_foldl (l : List α) (r : Reader α) : r.Le (l.foldl (step M) r) := by
  induction l generalizing r with
  | nil => exact .of_eq rfl
  | cons a rest ih => exact (le_step M r a).trans (ih _)

theorem read_append (l l' : List α) : read M (l ++ l') = l'.foldl (step M) (read M l) :=
  List.foldl_append

/-! ## Separators -/

section Spaces

variable {M}

theorem step_space {r : Reader α} (hmode : r.mode = .unquoted) (hpending : r.pending = false) :
    step M r M.space = r.finish := by
  rw [step, hpending, hmode]
  simp

/-- Separators outside quotes end the word. -/
theorem foldl_spaces {r : Reader α} (hmode : r.mode = .unquoted) (hpending : r.pending = false)
    (n : Nat) :
    (List.replicate n M.space).foldl (step M) r = r ∨
      (List.replicate n M.space).foldl (step M) r = r.finish := by
  induction n generalizing r with
  | zero => exact .inl rfl
  | succ n ih =>
    rw [List.replicate_succ, List.foldl_cons, step_space hmode hpending]
    have hfinish : r.finish.finish = r.finish := by simp [finish]
    have hrest := ih (r := r.finish) hmode hpending
    rw [hfinish, or_self] at hrest
    exact .inr hrest

theorem mode_step_space (r : Reader α) : (step M r M.space).mode = r.mode := by
  have hnodup := M.nodup
  simp only [List.nodup_cons, List.mem_cons, not_or] at hnodup
  rw [step]
  split
  · rfl
  · split
    · rw [if_pos rfl]
      rfl
    · rw [if_neg hnodup.1.1]
      rfl
    · rw [if_neg hnodup.1.2.1, if_neg hnodup.1.2.2.1]
      rfl

/-- Separators do not close quotes. -/
theorem mode_foldl_spaces (r : Reader α) (n : Nat) :
    ((List.replicate n M.space).foldl (step M) r).mode = r.mode := by
  induction n generalizing r with
  | zero => rfl
  | succ n ih => rw [List.replicate_succ, List.foldl_cons, ih, mode_step_space]

theorem read_spaces (n : Nat) (l : List α) :
    read M (List.replicate n M.space ++ l) = read M l := by
  have hstart : read M (List.replicate n M.space) = start := by
    obtain h | h := foldl_spaces (M := M) (r := start) rfl rfl n
    · exact h
    · exact h
  rw [read_append, hstart]
  rfl

end Spaces

/-! ## Escapes -/

section Escapes

variable {M}

theorem step_escape {r : Reader α} (hmode : r.mode ≠ .singleQuoted) :
    (step M r M.escape).mode = r.mode ∧ (step M r M.escape).pending = !r.pending := by
  have hnodup := M.nodup
  simp only [List.nodup_cons, List.mem_cons, List.not_mem_nil, not_or, or_false] at hnodup
  obtain ⟨⟨-, -, hspace⟩, ⟨-, hsingle⟩, hdouble, -⟩ := hnodup
  rw [step]
  split
  · rename_i hpending
    exact ⟨rfl, by rw [hpending]; rfl⟩
  · rename_i hpending
    have hfalse : r.pending = false := by simpa using hpending
    split
    · rw [if_neg (Ne.symm hspace), if_neg (Ne.symm hsingle), if_neg (Ne.symm hdouble), if_pos rfl,
        hfalse]
      exact ⟨rfl, rfl⟩
    · rename_i hsingle
      exact absurd hsingle hmode
    · rw [if_neg (Ne.symm hdouble), if_pos rfl, hfalse]
      exact ⟨rfl, rfl⟩

/-- Every other escape is kept by the one before it. -/
theorem foldl_escapes {r : Reader α} (hmode : r.mode ≠ .singleQuoted) (k : Nat) :
    ((List.replicate k M.escape).foldl (step M) r).pending = (r.pending != decide (k % 2 = 1)) := by
  induction k generalizing r with
  | zero => simp
  | succ k ih =>
    obtain ⟨hsame, hflip⟩ := step_escape (M := M) hmode
    rw [List.replicate_succ, List.foldl_cons, ih (by rwa [hsame]), hflip]
    rcases Nat.mod_two_eq_zero_or_one k with hk | hk
    · rw [hk, show (k + 1) % 2 = 1 by omega]
      cases r.pending <;> rfl
    · rw [hk, show (k + 1) % 2 = 0 by omega]
      cases r.pending <;> rfl

theorem mode_foldl_escapes_single {r : Reader α} (hmode : r.mode = .singleQuoted)
    (hpending : r.pending = false) (k : Nat) :
    ((List.replicate k M.escape).foldl (step M) r).mode = .singleQuoted := by
  induction k generalizing r with
  | zero => exact hmode
  | succ k ih =>
    have hnodup := M.nodup
    simp only [List.nodup_cons, List.mem_cons, List.not_mem_nil, not_or, or_false] at hnodup
    have hstep : step M r M.escape = r.push M.escape := by
      rw [step, hpending, hmode]
      simp [Ne.symm hnodup.2.1.2]
    rw [List.replicate_succ, List.foldl_cons, hstep]
    exact ih hmode hpending

theorem eq_escape_of_pending {r : Reader α} {a : α} (h : (step M r a).pending = true) :
    a = M.escape := by
  by_contra hne
  rw [step] at h
  split at h
  · cases h
  · rename_i hpending
    split at h
    · split_ifs at h <;> exact hpending h
    · split_ifs at h <;> exact hpending h
    · split_ifs at h <;> exact hpending h

/-- The line ends in an odd number of escapes. -/
def OddEscapes (M : Marks α) (l : List α) : Prop :=
  (l.reverse.takeWhile (· = M.escape)).length % 2 = 1

instance (M : Marks α) (l : List α) : Decidable (OddEscapes M l) :=
  inferInstanceAs (Decidable (_ = _))

/-- **Which lines end behind an escape**, outside quotes. -/
theorem pending_iff_oddEscapes {l : List α} (hmode : (read M l).mode = .unquoted) :
    (read M l).pending = true ↔ OddEscapes M l := by
  set k := (l.reverse.takeWhile (· = M.escape)).length with hk
  set l' := (l.reverse.dropWhile (· = M.escape)).reverse with hl'
  have hsplit : l = l' ++ List.replicate k M.escape := by
    have htake : l.reverse.takeWhile (· = M.escape) = List.replicate k M.escape := by
      refine List.eq_replicate_iff.mpr ⟨rfl, fun a ha => ?_⟩
      simpa using List.mem_takeWhile_imp ha
    rw [hl', ← List.reverse_replicate, ← htake, ← List.reverse_append,
      List.takeWhile_append_dropWhile, List.reverse_reverse]
  have hpending : (read M l').pending = false := by
    cases hrest : l.reverse.dropWhile (· = M.escape) with
    | nil =>
      rw [hl', hrest]
      rfl
    | cons a rest =>
      have hne := List.head?_dropWhile_not (· = M.escape) l.reverse
      rw [hrest] at hne
      by_contra hpending
      rw [hl', hrest, List.reverse_cons, read_append, Bool.not_eq_false] at hpending
      have heq : a = M.escape := eq_escape_of_pending hpending
      simp [heq] at hne
  have hsingle : (read M l').mode ≠ .singleQuoted := by
    intro hsingle
    have := mode_foldl_escapes_single (M := M) hsingle hpending k
    rw [← read_append, ← hsplit, hmode] at this
    cases this
  have hread := foldl_escapes (M := M) hsingle k
  rw [← read_append, ← hsplit, hpending] at hread
  rw [hread, OddEscapes, ← hk]
  simp

end Escapes

/-! ## Trimming -/

/-- **What trimming a closed line does**: nothing, or it leaves a line that ends behind an
escape. -/
theorem closed_trim {M : Marks α} {m n : Nat} {l : List α}
    (h : Closed M (List.replicate m M.space ++ l ++ List.replicate n M.space)) :
    (read M l).mode = .unquoted ∧
      (read M l).Le (read M (List.replicate m M.space ++ l ++ List.replicate n M.space)) ∧
      ((read M l).pending = false →
        (read M (List.replicate m M.space ++ l ++ List.replicate n M.space)).all =
          (read M l).all) := by
  have hread : read M (List.replicate m M.space ++ l ++ List.replicate n M.space) =
      (List.replicate n M.space).foldl (step M) (read M l) := by
    rw [read_append, read_spaces]
  have hmode : (read M l).mode = .unquoted := by
    have hclosed := h.1
    rwa [hread, mode_foldl_spaces] at hclosed
  rw [hread]
  refine ⟨hmode, le_foldl M _ _, fun hpending => ?_⟩
  obtain heq | heq := foldl_spaces (M := M) hmode hpending n
  · rw [heq]
  · rw [heq, all_finish]

/-! ## Runs -/

/-- What a symbol of a line is. -/
inductive Part (α : Type u) where
  | space
  | mark
  | kept (a : α)
deriving DecidableEq, Repr

/-- The parts of a line. -/
def parts (M : Marks α) : Mode → Bool → List α → List (Part α)
  | _, _, [] => []
  | mode, true, a :: l => .kept a :: parts M mode false l
  | .unquoted, false, a :: l =>
    if a = M.space then .space :: parts M .unquoted false l
    else if a = M.single then .mark :: parts M .singleQuoted false l
    else if a = M.double then .mark :: parts M .doubleQuoted false l
    else if a = M.escape then .mark :: parts M .unquoted true l
    else .kept a :: parts M .unquoted false l
  | .singleQuoted, false, a :: l =>
    if a = M.single then .mark :: parts M .unquoted false l
    else .kept a :: parts M .singleQuoted false l
  | .doubleQuoted, false, a :: l =>
    if a = M.double then .mark :: parts M .unquoted false l
    else if a = M.escape then .mark :: parts M .doubleQuoted true l
    else .kept a :: parts M .doubleQuoted false l

/-- The symbol of a part, if it is kept. -/
def Part.symbol : Part α → Option α
  | .kept a => some a
  | _ => none

/-- The runs between separators as words. A run of marks alone is an empty word. -/
def wordsOf (runs : List (List (Part α))) : List (List α) :=
  (runs.filter (· ≠ [])).map (·.filterMap Part.symbol)

/-- **The words of a line.** -/
def words (l : List α) : List (List α) := wordsOf ((parts M .unquoted false l).splitOn .space)

section Runs

variable {M}

/-- The words when the first run continues `word`. -/
def continued (word : Option (List α)) : List (List (Part α)) → List (List α)
  | [] => word.toList
  | run :: runs =>
    (if word = none ∧ run = [] then [] else [word.getD [] ++ run.filterMap Part.symbol]) ++
      wordsOf runs

omit [DecidableEq α] in
theorem continued_none (runs : List (List (Part α))) : continued none runs = wordsOf runs := by
  cases runs with
  | nil => rfl
  | cons run runs => cases run <;> simp [continued, wordsOf]

theorem continued_space (word : Option (List α)) (parts : List (Part α)) :
    continued word ((Part.space :: parts).splitOn .space) =
      word.toList ++ wordsOf (parts.splitOn .space) := by
  rw [List.splitOn_cons_eq_if_modifyHead, if_pos (beq_self_eq_true _)]
  cases word <;> simp [continued]

theorem continued_kept (word : Option (List α)) (a : α) (parts : List (Part α)) :
    continued word ((Part.kept a :: parts).splitOn .space) =
      continued (some (word.getD [] ++ [a])) (parts.splitOn .space) := by
  rw [List.splitOn_cons_eq_if_modifyHead, if_neg (by simp)]
  cases hruns : parts.splitOn .space with
  | nil => exact absurd hruns (List.splitOn_ne_nil _ _)
  | cons run runs => simp [continued, Part.symbol]

theorem continued_mark (word : Option (List α)) (parts : List (Part α)) :
    continued word ((Part.mark :: parts).splitOn .space) =
      continued (some (word.getD [])) (parts.splitOn .space) := by
  rw [List.splitOn_cons_eq_if_modifyHead, if_neg (by simp)]
  cases hruns : parts.splitOn .space with
  | nil => exact absurd hruns (List.splitOn_ne_nil _ _)
  | cons run runs =>
    have hmark : (Part.mark :: run).filterMap Part.symbol = run.filterMap Part.symbol :=
      List.filterMap_cons_none rfl
    simp [continued, hmark]

/-- An escape begins no word, but the symbol behind it does. -/
theorem continued_escape (word : Option (List α)) {mode : Mode} {l : List α} (h : l ≠ []) :
    continued word ((Part.mark :: parts M mode true l).splitOn .space) =
      continued word ((parts M mode true l).splitOn .space) := by
  obtain ⟨a, l, rfl⟩ := List.exists_cons_of_ne_nil h
  rw [continued_mark, parts, continued_kept, continued_kept]
  rfl

/-- Quotes begin a word. -/
def Begun (r : Reader α) : Prop := r.mode ≠ .unquoted → r.word.isSome

theorem Begun.step {r : Reader α} (h : Begun r) (a : α) : Begun (step M r a) := by
  rw [ShellWords.step]
  split
  · exact fun _ => rfl
  · split
    · rename_i hmode
      split_ifs
      · exact fun hne => absurd hmode hne
      · exact fun _ => rfl
      · exact fun _ => rfl
      · exact fun hne => absurd hmode hne
      · exact fun _ => rfl
    · split_ifs
      · exact fun hne => absurd rfl hne
      · exact fun _ => rfl
    · split_ifs
      · exact fun hne => absurd rfl hne
      · exact h
      · exact fun _ => rfl

/-- A reader adds the runs it reads. -/
theorem all_foldl {l : List α} {r : Reader α} (hbegun : Begun r)
    (h : (l.foldl (step M) r).pending = false) :
    (l.foldl (step M) r).all =
      r.words ++ continued r.word ((parts M r.mode r.pending l).splitOn .space) := by
  induction l generalizing r with
  | nil =>
    obtain ⟨mode, pending, words, word⟩ := r
    cases word <;> simp [all, parts, continued, wordsOf]
  | cons a l ih =>
    rw [List.foldl_cons] at h
    rw [List.foldl_cons, ih (hbegun.step a) h]
    obtain ⟨mode, pending, words, word⟩ := r
    -- an escape is not the last symbol
    have hescape : step M ⟨mode, pending, words, word⟩ a = ⟨mode, true, words, word⟩ → l ≠ [] := by
      rintro heq rfl
      rw [heq] at h
      cases h
    cases pending with
    | true =>
      rw [parts, continued_kept]
      rfl
    | false =>
      cases mode with
      | unquoted =>
        simp only [step, parts, Bool.false_eq_true, if_false] at hescape ⊢
        split_ifs at hescape ⊢
        · rw [continued_space, ← continued_none, ← List.append_assoc]
          rfl
        · rw [continued_mark]
          rfl
        · rw [continued_mark]
          rfl
        · rw [continued_escape _ (hescape rfl)]
        · rw [continued_kept]
          rfl
      | singleQuoted =>
        simp only [step, parts, Bool.false_eq_true, if_false]
        obtain ⟨word, rfl⟩ := Option.isSome_iff_exists.mp (hbegun nofun)
        split_ifs
        · rw [continued_mark]
          rfl
        · rw [continued_kept]
          rfl
      | doubleQuoted =>
        simp only [step, parts, Bool.false_eq_true, if_false] at hescape ⊢
        obtain ⟨word, rfl⟩ := Option.isSome_iff_exists.mp (hbegun nofun)
        split_ifs at hescape ⊢
        · rw [continued_mark]
          rfl
        · rw [continued_escape _ (hescape rfl)]
        · rw [continued_kept]
          rfl

/-- **A reader finds the words of a line.** -/
theorem all_read {l : List α} (h : (read M l).pending = false) : (read M l).all = words M l := by
  rw [read, all_foldl (fun hne => absurd rfl hne) h, words, ← continued_none]
  rfl

end Runs

/-! ## Spelling -/

section Spelling

variable {β : Type u} [DecidableEq β] {M' : Marks β} {M : Marks α} {e : β → List α}

def Marks.all (M : Marks α) : List α := [M.space, M.single, M.double, M.escape]

/-- **A spelling of symbols**: the marks spell the marks, and no other symbol has them in it. -/
structure Spells (M' : Marks β) (M : Marks α) (e : β → List α) : Prop where
  space : e M'.space = [M.space]
  single : e M'.single = [M.single]
  double : e M'.double = [M.double]
  escape : e M'.escape = [M.escape]
  plain : ∀ b, b ∉ M'.all → e b ≠ [] ∧ ∀ a ∈ e b, a ∉ M.all

/-- A symbol without a meaning is kept. -/
theorem step_plain {r : Reader α} {a : α} (h : a ∉ M.all) :
    step M r a = { r.push a with pending := false } := by
  simp only [Marks.all, List.mem_cons, List.not_mem_nil, or_false, not_or] at h
  obtain ⟨hspace, hsingle, hdouble, hescape⟩ := h
  obtain ⟨mode, pending, words, word⟩ := r
  cases pending with
  | true => rfl
  | false => cases mode <;> simp [step, hspace, hsingle, hdouble, hescape, push]

theorem foldl_plain {l : List α} (hne : l ≠ []) (h : ∀ a ∈ l, a ∉ M.all) (r : Reader α) :
    l.foldl (step M) r = { r with word := some (r.word.getD [] ++ l), pending := false } := by
  induction l generalizing r with
  | nil => exact absurd rfl hne
  | cons a l ih =>
    rw [List.foldl_cons, step_plain (h a List.mem_cons_self)]
    cases l with
    | nil => rfl
    | cons a' l =>
      rw [ih (List.cons_ne_nil _ _) fun b hb => h b (List.mem_cons_of_mem _ hb)]
      simp [push]

/-- A symbol that is spelled by one symbol with the same meaning. -/
theorem step_spell {b : β} {a : α} (h : e b = [a]) (hspace : b = M'.space ↔ a = M.space)
    (hsingle : b = M'.single ↔ a = M.single) (hdouble : b = M'.double ↔ a = M.double)
    (hescape : b = M'.escape ↔ a = M.escape) (r : Reader β) :
    step M (r.spell e) a = (step M' r b).spell e := by
  have hpush := push_spell (r := r) h
  have hbegin := begin_spell (e := e) r
  have hfinish := finish_spell (e := e) r
  rw [step, step, hpush, hbegin, hfinish]
  simp only [hspace, hsingle, hdouble, hescape]
  obtain ⟨mode, pending, words, word⟩ := r
  cases pending with
  | true => rfl
  | false =>
    cases mode with
    | unquoted =>
      dsimp only [spell]
      split_ifs <;> rfl
    | singleQuoted =>
      dsimp only [spell]
      split_ifs <;> rfl
    | doubleQuoted =>
      dsimp only [spell]
      split_ifs <;> rfl

/-- A symbol, spelled out. -/
theorem foldl_spell (h : Spells M' M e) (b : β) (r : Reader β) :
    (e b).foldl (step M) (r.spell e) = (step M' r b).spell e := by
  have hM := M.nodup
  have hM' := M'.nodup
  simp only [List.nodup_cons, List.mem_cons, List.not_mem_nil, not_or, or_false] at hM hM'
  obtain ⟨⟨h₁, h₂, h₃⟩, ⟨h₄, h₅⟩, h₆, -⟩ := hM
  obtain ⟨⟨h₁', h₂', h₃'⟩, ⟨h₄', h₅'⟩, h₆', -⟩ := hM'
  by_cases hb : b ∈ M'.all
  · simp only [Marks.all, List.mem_cons, List.not_mem_nil, or_false] at hb
    rcases hb with rfl | rfl | rfl | rfl
    · rw [h.space]
      exact step_spell h.space (by simp) (by simp [h₁, h₁']) (by simp [h₂, h₂'])
        (by simp [h₃, h₃']) r
    · rw [h.single]
      exact step_spell h.single (by simp [Ne.symm h₁, Ne.symm h₁']) (by simp) (by simp [h₄, h₄'])
        (by simp [h₅, h₅']) r
    · rw [h.double]
      exact step_spell h.double (by simp [Ne.symm h₂, Ne.symm h₂'])
        (by simp [Ne.symm h₄, Ne.symm h₄']) (by simp) (by simp [h₆, h₆']) r
    · rw [h.escape]
      exact step_spell h.escape (by simp [Ne.symm h₃, Ne.symm h₃'])
        (by simp [Ne.symm h₅, Ne.symm h₅']) (by simp [Ne.symm h₆, Ne.symm h₆']) (by simp) r
  · obtain ⟨hne, hplain⟩ := h.plain b hb
    rw [foldl_plain hne hplain, step_plain hb]
    obtain ⟨mode, pending, words, word⟩ := r
    cases word <;> simp [push, spell]

/-- **Reading commutes with spelling.** -/
theorem read_flatMap (h : Spells M' M e) (l : List β) :
    read M (l.flatMap e) = (read M' l).spell e := by
  have hfoldl : ∀ r : Reader β, (l.flatMap e).foldl (step M) (r.spell e) =
      (l.foldl (step M') r).spell e := by
    induction l with
    | nil => exact fun _ => rfl
    | cons b l ih =>
      intro r
      rw [List.flatMap_cons, List.foldl_append, foldl_spell h, ih]
      rfl
  exact hfoldl start

end Spelling

end ShellWords
