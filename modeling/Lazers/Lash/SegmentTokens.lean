import Lazers.Lash.Segments

/-!
# Tokens of a segment (`lash/src/lib.rs`)

A line goes through two automata: `scan_segments` cuts it into segments, and
`TokenizedCommand::parse` reads each segment on its own. In between the segments are trimmed byte
by byte.

- `agrees_trim_iff`: what the spaces around a closed piece mean to the tokenizer.
- `segment_agrees_iff`: a segment has the tokens of its piece unless the trimming took away an
  escaped space, which leaves the segment with an odd number of backslashes at its end.
-/

namespace Lazers.Lash

open ShellWords

/-- **The two automata agree on a segment**: it is not rejected for its quoting, and it has the
tokens of its piece, or both are beyond the capacity. -/
def Agrees (segment piece : List UInt8) : Prop :=
  (∀ e, TokenizedCommand.parse segment = .error e →
      e ≠ .unmatchedSingleQuote ∧ e ≠ .unmatchedDoubleQuote ∧ e ≠ .trailingBackslash) ∧
    (TokenizedCommand.parse segment).map TokenizedCommand.tokens =
      (TokenizedCommand.parse piece).map TokenizedCommand.tokens

theorem agrees_iff_tokenize {segment piece : List UInt8} :
    Agrees segment piece ↔
      (∀ e, tokenize segment = .error e →
        e ≠ .unmatchedSingleQuote ∧ e ≠ .unmatchedDoubleQuote ∧ e ≠ .trailingBackslash) ∧
      tokenize segment = tokenize piece := by
  rw [Agrees, ← parse_tokens, ← parse_tokens]
  cases TokenizedCommand.parse segment with
  | ok parsed => simp [Except.map]
  | error e => simp [Except.map]

/-- Trimming a piece changes its tokens only if it takes away an escaped space. -/
theorem agrees_trim_iff {m n : Nat} {segment : List UInt8}
    (h : Closed marks (List.replicate m 32 ++ segment ++ List.replicate n 32)) :
    Agrees segment (List.replicate m 32 ++ segment ++ List.replicate n 32) ↔
      ¬ OddEscapes marks segment ∨ ¬ Room (read marks segment) := by
  obtain ⟨hmode, hle, hall⟩ := closed_trim (M := marks) h
  change (read marks segment).Le
    (read marks (List.replicate m 32 ++ segment ++ List.replicate n 32)) at hle
  change _ → (read marks (List.replicate m 32 ++ segment ++ List.replicate n 32)).all = _ at hall
  generalize List.replicate m 32 ++ segment ++ List.replicate n 32 = piece at *
  rw [agrees_iff_tokenize, ← pending_iff_oddEscapes hmode]
  have hpiece : tokenize piece =
      if ¬ Room (read marks piece) then .error .resourceUnavailable
      else .ok (read marks piece).all := by
    rw [tokenize]
    rw [h.1, h.2]
    rfl
  by_cases hroom : Room (read marks segment)
  · cases hpending : (read marks segment).pending with
    | true =>
      -- the backslash is now the last byte
      have htokens : tokenize segment = .error .trailingBackslash := by
        rw [tokenize]
        rw [if_neg (not_not.mpr hroom), if_pos hpending]
      simp [htokens, hroom]
    | false =>
      have hsame := hall hpending
      have htokens : tokenize segment = .ok (read marks segment).all := by
        rw [tokenize]
        rw [if_neg (not_not.mpr hroom), hpending, hmode]
        rfl
      have hroom' : Room (read marks piece) := by
        rwa [Room, Reader.Fits, hsame]
      rw [hpiece, if_neg (not_not.mpr hroom'), htokens, hsame]
      simp
  · have hroom' : ¬ Room (read marks piece) := fun hfits => hroom (hfits.mono hle)
    have htokens : tokenize segment = .error .resourceUnavailable := by
      rw [tokenize]
      rw [if_pos hroom]
    rw [hpiece, if_pos hroom', htokens]
    simp [hroom]

/-- **When a segment has the tokens of its piece.** For every line that is accepted and every
segment of it: if and only if the segment does not end in an odd number of backslashes, or has
more tokens than there is room for before that. -/
theorem segment_agrees_iff {line : List UInt8} {scan : SegmentScan} {i : Nat}
    {segment : List UInt8} (hscan : scanSegments line = .ok scan)
    (hsegment : scan.segment line i = some segment) :
    ∃ piece, (pieces line)[i]? = some piece ∧
      (Agrees segment piece ↔
        ¬ OddEscapes marks segment ∨ ¬ Room (read marks segment)) := by
  rcases scanSegments_cases line with ⟨e, herror, -⟩ | ⟨scan', hok, -, hlists, hclosed⟩
  · rw [herror] at hscan
    cases hscan
  rw [hok] at hscan
  cases hscan
  obtain ⟨piece, hpiece, rfl⟩ : ∃ piece, (pieces line)[i]? = some piece ∧
      trimSpaces piece = segment := by
    rw [hlists.segment, segmentsOf] at hsegment
    split_ifs at hsegment
    · cases hsegment
    · rw [List.getElem?_map] at hsegment
      exact Option.map_eq_some_iff.mp hsegment
  refine ⟨piece, hpiece, ?_⟩
  obtain ⟨m, n, hspaces⟩ := trimSpaces_append piece
  have hpieceClosed := hclosed piece (List.mem_of_getElem? hpiece)
  rw [hspaces] at hpieceClosed
  have hagrees := agrees_trim_iff hpieceClosed
  rwa [← hspaces] at hagrees

/-- The segments of `echo "a b" ; ls`. -/
def listScan : SegmentScan where
  starts := (Vector.replicate _ 0).setIfInBounds 1 13
  ends := ((Vector.replicate _ 0).setIfInBounds 0 10).setIfInBounds 1 15
  operators := Vector.replicate _ .sequence
  count := 2

/-- Both sides are met by `echo "a b" ; ls`. -/
theorem segment_agrees_at_list :
    scanSegments (strBytes "echo \"a b\" ; ls") = .ok listScan ∧
      ∃ piece, (pieces (strBytes "echo \"a b\" ; ls"))[0]? = some piece ∧
        Agrees (strBytes "echo \"a b\"") piece := by
  have hscan : scanSegments (strBytes "echo \"a b\" ; ls") = .ok listScan := by decide +kernel
  have hsegment : listScan.segment (strBytes "echo \"a b\" ; ls") 0 =
      some (strBytes "echo \"a b\"") := by
    decide +kernel
  obtain ⟨piece, hpiece, hagrees⟩ := segment_agrees_iff hscan hsegment
  exact ⟨hscan, piece, hpiece, hagrees.mpr (.inl (by decide +kernel))⟩

/-- **An escaped space at the end is lost.** The line `a\ ` is accepted and has one token, and its
segment `a\` is rejected. -/
theorem segment_disagrees_at_escaped_space :
    (scanSegments [97, 92, 32]).map (fun scan => scan.segment [97, 92, 32] 0) =
        .ok (some [97, 92]) ∧
      pieces [97, 92, 32] = [[97, 92, 32]] ∧
      TokenizedCommand.parse [97, 92] = .error .trailingBackslash ∧
      (TokenizedCommand.parse [97, 92, 32]).map TokenizedCommand.tokens = .ok [[97, 32]] := by
  decide +kernel

end Lazers.Lash
