import Switchboard.Text.Blank

/-!
# Cutting a text at a mark

A text is cut at the first or at the last occurrence of a mark, the mark
itself belonging to neither part. Lists written with a separator lose the
blanks around their entries and lose their empty entries.
-/

namespace Switchboard.Text

/-- What stands before and after the first `mark`. -/
def cutFirst (mark : Char) : List Char → Option (List Char × List Char)
  | [] => none
  | c :: rest =>
    if c = mark then some ([], rest)
    else (cutFirst mark rest).map fun (before, after) => (c :: before, after)

/-- What stands before and after the last `mark`. -/
def cutLast (mark : Char) : List Char → Option (List Char × List Char)
  | [] => none
  | c :: rest =>
    match cutLast mark rest with
    | some (before, after) => some (c :: before, after)
    | none => if c = mark then some ([], rest) else none

/-- What follows `head`, if the text starts with it. -/
def dropHead? : List Char → List Char → Option (List Char)
  | [], s => some s
  | _ :: _, [] => none
  | h :: head, c :: s => if h = c then dropHead? head s else none

/-- Entries of a list separated by `mark`, without blanks around them and
without empty ones. -/
def entries (mark : Char) (s : List Char) : List (List Char) :=
  ((s.splitOn mark).map trim).filter (· ≠ [])

theorem dropHead?_eq_some_iff {head s rest : List Char} :
    dropHead? head s = some rest ↔ s = head ++ rest := by
  fun_induction dropHead? head s with
  | case1 s => simp
  | case2 => simp
  | case3 h head s ih => simp [ih]
  | case4 h head c s hne => simp [Ne.symm hne]

theorem cutFirst_eq_none_iff {mark : Char} {s : List Char} :
    cutFirst mark s = none ↔ mark ∉ s := by
  induction s with
  | nil => simp [cutFirst]
  | cons c rest ih =>
      by_cases h : c = mark
      · simp [cutFirst, h]
      · simp [cutFirst, h, ih, Ne.symm h]

theorem eq_append_of_cutFirst {mark : Char} {s before after : List Char}
    (h : cutFirst mark s = some (before, after)) :
    s = before ++ mark :: after ∧ mark ∉ before := by
  induction s generalizing before with
  | nil => simp [cutFirst] at h
  | cons c rest ih =>
      by_cases hc : c = mark
      · simp [cutFirst, hc] at h
        obtain ⟨rfl, rfl⟩ := h
        simp [hc]
      · simp only [cutFirst, if_neg hc, Option.map_eq_some_iff] at h
        obtain ⟨⟨b, a⟩, hcut, hpair⟩ := h
        obtain ⟨rfl, rfl⟩ := Prod.mk.inj hpair
        obtain ⟨hrest, hmark⟩ := ih hcut
        refine ⟨by rw [hrest]; rfl, ?_⟩
        simp [hmark, Ne.symm hc]

theorem cutFirst_append {mark : Char} {before : List Char} (after : List Char)
    (h : mark ∉ before) :
    cutFirst mark (before ++ mark :: after) = some (before, after) := by
  induction before with
  | nil => simp [cutFirst]
  | cons c rest ih =>
      rw [List.mem_cons, not_or] at h
      simp [cutFirst, Ne.symm h.1, ih h.2]

theorem cutLast_eq_none_iff {mark : Char} {s : List Char} :
    cutLast mark s = none ↔ mark ∉ s := by
  induction s with
  | nil => simp [cutLast]
  | cons c rest ih =>
      rw [List.mem_cons, not_or, ← ih, cutLast]
      cases cutLast mark rest with
      | some parts => simp
      | none => simp [eq_comm]

theorem eq_append_of_cutLast {mark : Char} {s before after : List Char}
    (h : cutLast mark s = some (before, after)) :
    s = before ++ mark :: after ∧ mark ∉ after := by
  induction s generalizing before with
  | nil => simp [cutLast] at h
  | cons c rest ih =>
      cases hcut : cutLast mark rest with
      | some parts =>
          obtain ⟨b, a⟩ := parts
          simp only [cutLast, hcut, Option.some.injEq, Prod.mk.injEq] at h
          obtain ⟨rfl, rfl⟩ := h
          obtain ⟨hrest, hmark⟩ := ih hcut
          exact ⟨by rw [hrest]; rfl, hmark⟩
      | none =>
          simp only [cutLast, hcut, Option.ite_none_right_eq_some, Option.some.injEq,
            Prod.mk.injEq] at h
          obtain ⟨rfl, rfl, rfl⟩ := h
          exact ⟨rfl, cutLast_eq_none_iff.mp hcut⟩

theorem cutLast_append {mark : Char} {after : List Char} (before : List Char)
    (h : mark ∉ after) :
    cutLast mark (before ++ mark :: after) = some (before, after) := by
  induction before with
  | nil => simp [cutLast, cutLast_eq_none_iff.mpr h]
  | cons c rest ih => simp [cutLast, ih]

end Switchboard.Text
