import Mathlib.Data.List.Induction

/-!
Lines of a stream that arrives in pieces: the reader keeps what is behind the
last separator, and neither that nor the lines depend on where the pieces end.
-/

namespace Lines

variable {α : Type*} (sep : α → Bool)

/-- Put a character before some lines and the unfinished one. -/
def prepend (c : α) : List (List α) × List α → List (List α) × List α
  | ([], left) => ([], c :: left)
  | (line :: lines, left) => ((c :: line) :: lines, left)

/-- The lines of a text, without their separators, and the unfinished one. -/
def splitLines : List α → List (List α) × List α
  | [] => ([], [])
  | c :: rest =>
      if sep c then ([] :: (splitLines rest).1, (splitLines rest).2)
      else prepend c (splitLines rest)

/-- A reader that splits whatever its buffer holds after each piece. -/
def readPieces (pieces : List (List α)) : List (List α) × List α :=
  pieces.foldl (fun (lines, left) piece =>
    let (new, left) := splitLines sep (left ++ piece)
    (lines ++ new, left)) ([], [])

variable {sep}

theorem splitLines_cons_sep {c : α} (hc : sep c = true) (rest : List α) :
    splitLines sep (c :: rest) = ([] :: (splitLines sep rest).1, (splitLines sep rest).2) := by
  rw [splitLines, if_pos hc]

theorem splitLines_cons {c : α} (hc : sep c = false) (rest : List α) :
    splitLines sep (c :: rest) = prepend c (splitLines sep rest) := by
  rw [splitLines, hc, if_neg Bool.false_ne_true]

theorem splitLines_append (xs ys : List α) :
    splitLines sep (xs ++ ys) =
      ((splitLines sep xs).1 ++ (splitLines sep ((splitLines sep xs).2 ++ ys)).1,
        (splitLines sep ((splitLines sep xs).2 ++ ys)).2) := by
  induction xs with
  | nil => rfl
  | cons c xs ih =>
      rw [List.cons_append]
      rcases hc : sep c with - | -
      · rw [splitLines_cons hc, splitLines_cons hc, ih]
        rcases splitLines sep xs with ⟨- | ⟨line, lines⟩, left⟩
        · simp [prepend, splitLines_cons hc]
        · simp [prepend]
      · rw [splitLines_cons_sep hc, splitLines_cons_sep hc, ih]
        rfl

theorem splitLines_of_forall {xs : List α} (h : ∀ c ∈ xs, sep c = false) :
    splitLines sep xs = ([], xs) := by
  induction xs with
  | nil => rfl
  | cons c xs ih =>
      rw [List.forall_mem_cons] at h
      rw [splitLines_cons h.1, ih h.2]
      rfl

theorem splitLines_line {xs : List α} (h : ∀ c ∈ xs, sep c = false) {c : α} (hc : sep c = true)
    (rest : List α) :
    splitLines sep (xs ++ c :: rest) =
      (xs :: (splitLines sep rest).1, (splitLines sep rest).2) := by
  induction xs with
  | nil => exact splitLines_cons_sep hc rest
  | cons x xs ih =>
      rw [List.forall_mem_cons] at h
      rw [List.cons_append, splitLines_cons h.1, ih h.2]
      rfl

theorem readPieces_eq (pieces : List (List α)) :
    readPieces sep pieces = splitLines sep pieces.flatten := by
  induction pieces using List.reverseRecOn with
  | nil => rfl
  | append_singleton pieces piece ih =>
      rw [readPieces, List.foldl_append, List.foldl_cons, List.foldl_nil, ← readPieces, ih,
        List.flatten_append, List.flatten_singleton, splitLines_append]

end Lines
