/-!
# Ranked lists

A ranked list names each entry once, the most wanted first. It is built by
appending what it does not hold yet, so the first occurrence of an entry
fixes its place. Of two lists, the first entry of the one that the other
holds too is their choice.
-/

namespace Switchboard.Ranked

variable {α : Type} [DecidableEq α]

/-- Appends an entry that the list does not hold yet. -/
def add (xs : List α) (a : α) : List α :=
  if a ∈ xs then xs else xs ++ [a]

/-- First occurrences, in order. -/
def ofList (xs : List α) : List α :=
  xs.foldl add []

/-- First entry of `offered` that is also in `held`. -/
def firstCommon (offered held : List α) : Option α :=
  offered.find? (· ∈ held)

@[simp] theorem mem_add {xs : List α} {a b : α} : b ∈ add xs a ↔ b ∈ xs ∨ b = a := by
  unfold add
  split <;> simp_all

theorem nodup_add {xs : List α} {a : α} (h : xs.Nodup) : (add xs a).Nodup := by
  unfold add
  split
  · exact h
  · rename_i hnot
    rw [List.nodup_append]
    refine ⟨h, by simp, ?_⟩
    intro x hx y hy heq
    rw [List.mem_singleton] at hy
    subst hy
    exact hnot (heq ▸ hx)

theorem add_of_mem {xs : List α} {a : α} (h : a ∈ xs) : add xs a = xs := by
  simp [add, h]

theorem prefix_add (xs : List α) (a : α) : xs <+: add xs a := by
  unfold add
  split
  · exact List.prefix_rfl
  · exact List.prefix_append xs [a]

theorem mem_foldl_add {xs ys : List α} {a : α} :
    a ∈ ys.foldl add xs ↔ a ∈ xs ∨ a ∈ ys := by
  induction ys generalizing xs with
  | nil => simp
  | cons y rest ih => simp [ih, or_assoc]

@[simp] theorem mem_ofList {xs : List α} {a : α} : a ∈ ofList xs ↔ a ∈ xs := by
  simp [ofList, mem_foldl_add]

theorem nodup_foldl_add {xs ys : List α} (h : xs.Nodup) : (ys.foldl add xs).Nodup := by
  induction ys generalizing xs with
  | nil => exact h
  | cons y rest ih => exact ih (nodup_add h)

theorem nodup_ofList (xs : List α) : (ofList xs).Nodup :=
  nodup_foldl_add List.nodup_nil

@[simp] theorem ofList_nil : ofList ([] : List α) = [] := rfl

theorem ofList_snoc (xs : List α) (a : α) : ofList (xs ++ [a]) = add (ofList xs) a := by
  simp [ofList]

end Switchboard.Ranked
