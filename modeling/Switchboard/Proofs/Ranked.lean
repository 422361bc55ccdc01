import Mathlib.Data.List.Induction
import Switchboard.Ranked

/-!
# The choice of two lists

The first common entry of two lists, in words: it is in both, and no entry
before it in the offered list is held. It depends on the held list through
membership alone, and not even on all of that. Whether there is one depends on
the members of both lists, not on their order.
-/

namespace Switchboard.Ranked

variable {α : Type} {offered held : List α} {a : α}

/-- The entry is held, and offered before every other one that is. -/
def Leads (offered held : List α) (a : α) : Prop :=
  a ∈ held ∧ ∃ before after, offered = before ++ a :: after ∧ ∀ b ∈ before, b ∉ held

theorem Leads.mem_held (h : Leads offered held a) : a ∈ held :=
  h.1

theorem Leads.mem_offered (h : Leads offered held a) : a ∈ offered := by
  obtain ⟨-, before, after, rfl, -⟩ := h
  exact List.mem_append_right before List.mem_cons_self

/-- Holding less changes nothing as long as the chosen entry is held. -/
theorem Leads.of_subset {held' : List α} (h : Leads offered held a) (ha : a ∈ held')
    (hsub : held' ⊆ held) : Leads offered held' a := by
  obtain ⟨-, before, after, hsplit, hbefore⟩ := h
  refine ⟨ha, before, after, hsplit, ?_⟩
  intro b hb hheld
  exact hbefore b hb (hsub hheld)

/-- Where larger entries come first, none that is held is larger than the
choice. -/
theorem Leads.largest {size : α → Nat} (h : Leads offered held a)
    (hsorted : offered.Pairwise fun a b => size b ≤ size a) :
    ∀ b ∈ offered, b ∈ held → size b ≤ size a := by
  obtain ⟨-, before, after, rfl, hbefore⟩ := h
  intro b hb hheld
  rcases List.mem_append.mp hb with hb | hb
  · exact absurd hheld (hbefore b hb)
  · rcases List.mem_cons.mp hb with rfl | hb
    · exact Nat.le_refl _
    · exact (List.pairwise_cons.mp (List.pairwise_append.mp hsorted).2.1).1 b hb

/-- Then the choice reaches a size exactly if some entry offered and held does. -/
theorem Leads.le_size_iff {size : α → Nat} (h : Leads offered held a)
    (hsorted : offered.Pairwise fun a b => size b ≤ size a) (n : Nat) :
    n ≤ size a ↔ ∃ b ∈ offered, b ∈ held ∧ n ≤ size b := by
  constructor
  · intro hn
    exact ⟨a, h.mem_offered, h.mem_held, hn⟩
  · rintro ⟨b, hb, hheld, hn⟩
    exact Nat.le_trans hn (h.largest hsorted b hb hheld)

/-- The same entries, whatever their order and however often each is named. -/
def SameMembers (xs ys : List α) : Prop :=
  ∀ a, a ∈ xs ↔ a ∈ ys

theorem SameMembers.eq_nil_iff {xs ys : List α} (h : SameMembers xs ys) : xs = [] ↔ ys = [] := by
  rw [List.eq_nil_iff_forall_not_mem, List.eq_nil_iff_forall_not_mem]
  exact forall_congr' fun a => not_congr (h a)

variable [DecidableEq α]

instance (xs ys : List α) : Decidable (SameMembers xs ys) :=
  decidable_of_iff ((∀ a ∈ xs, a ∈ ys) ∧ ∀ a ∈ ys, a ∈ xs)
    ⟨fun h a => ⟨h.1 a, h.2 a⟩, fun h => ⟨fun a => (h a).mp, fun a => (h a).mpr⟩⟩

theorem firstCommon_eq_some_iff :
    firstCommon offered held = some a ↔ Leads offered held a := by
  unfold firstCommon Leads
  rw [List.find?_eq_some_iff_append]
  simp

theorem firstCommon_isSome_iff :
    (firstCommon offered held).isSome ↔ ∃ a ∈ offered, a ∈ held := by
  simp [firstCommon]

theorem exists_leads (h : ∃ a ∈ offered, a ∈ held) : ∃ a, Leads offered held a := by
  obtain ⟨a, ha⟩ := Option.isSome_iff_exists.mp (firstCommon_isSome_iff.mpr h)
  exact ⟨a, firstCommon_eq_some_iff.mp ha⟩

/-- What is offered and held, in the order of the offer. -/
def common (offered held : List α) : List α :=
  offered.filter (· ∈ held)

@[simp] theorem mem_common : a ∈ common offered held ↔ a ∈ offered ∧ a ∈ held := by
  simp [common]

/-- A list that names nothing twice is ranked as it stands. -/
theorem ofList_of_nodup {xs : List α} (h : xs.Nodup) : ofList xs = xs := by
  induction xs using List.reverseRecOn with
  | nil => rfl
  | append_singleton xs a ih =>
      rw [List.nodup_append] at h
      obtain ⟨hxs, -, hnew⟩ := h
      have hnot : a ∉ xs := fun ha => hnew a ha a List.mem_cons_self rfl
      rw [ofList_snoc, ih hxs, add, if_neg hnot]

/-- Ranking drops every entry that has come before. -/
theorem ofList_eq_eraseDups (xs : List α) : ofList xs = xs.eraseDups := by
  induction xs using List.reverseRecOn with
  | nil => rfl
  | append_singleton xs a ih =>
      rw [ofList_snoc, ih, List.eraseDups_append]
      by_cases ha : a ∈ xs
      · have hnone : [a].removeAll xs = [] := by simp [List.removeAll, ha]
        rw [add_of_mem (by simpa using ha), hnone, List.eraseDups_nil, List.append_nil]
      · have hone : [a].removeAll xs = [a] := by simp [List.removeAll, ha]
        rw [add, if_neg (by simpa using ha), hone]
        rfl

/-- In which order an entry is held makes no difference. -/
theorem firstCommon_congr {held' : List α} (h : SameMembers held held') :
    firstCommon offered held = firstCommon offered held' := by
  unfold firstCommon
  congr 1
  funext a
  rw [decide_eq_decide]
  exact h a

theorem SameMembers.add_of_mem {xs ys : List α} (h : SameMembers xs ys) (ha : a ∈ ys) :
    SameMembers (add xs a) ys := by
  intro b
  rw [mem_add, h b]
  constructor
  · rintro (hb | rfl)
    · exact hb
    · exact ha
  · exact Or.inl

end Switchboard.Ranked
