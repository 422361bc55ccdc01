import Switchboard.Proofs.Text.Fold

/-!
# Cutting a text by its bytes

A text can be cut after some number of bytes only where a character ends, and
characters beyond ASCII take several bytes each. Folding does not touch them, so
what differs from an ASCII text in letter case alone is ASCII itself and takes as
many bytes as it has characters.
-/

namespace Switchboard.Text

variable {s t before after : List Char} {n : Nat}

/-- Bytes of the text in UTF-8. -/
def byteLength (s : List Char) : Nat :=
  (String.ofList s).utf8ByteSize

/-- What stands before and after so many bytes, if a character ends there. -/
def cutBytes? : Nat → List Char → Option (List Char × List Char)
  | 0, s => some ([], s)
  | _ + 1, [] => none
  | n + 1, c :: s =>
    if c.utf8Size ≤ n + 1 then
      (cutBytes? (n + 1 - c.utf8Size) s).map fun (before, after) => (c :: before, after)
    else none

@[simp] theorem byteLength_nil : byteLength [] = 0 := rfl

@[simp] theorem byteLength_cons (c : Char) (s : List Char) :
    byteLength (c :: s) = c.utf8Size + byteLength s := by
  unfold byteLength
  rw [String.ofList_cons, String.utf8ByteSize_append, String.utf8ByteSize_singleton]

@[simp] theorem byteLength_append (s t : List Char) :
    byteLength (s ++ t) = byteLength s + byteLength t := by
  unfold byteLength
  rw [String.ofList_append, String.utf8ByteSize_append]

theorem byteLength_pos (h : s ≠ []) : 0 < byteLength s := by
  obtain ⟨c, rest, rfl⟩ := List.exists_cons_of_ne_nil h
  rw [byteLength_cons]
  exact Nat.add_pos_left c.utf8Size_pos _

/-- The first character is cut off with all its bytes. -/
theorem cutBytes?_cons (n : Nat) (c : Char) (s : List Char) :
    cutBytes? (c.utf8Size + n) (c :: s) =
      (cutBytes? n s).map fun (before, after) => (c :: before, after) := by
  obtain ⟨k, hk⟩ := Nat.exists_eq_add_one.mpr c.utf8Size_pos
  have hsum : c.utf8Size + n = (k + n) + 1 := by omega
  rw [hsum, cutBytes?, if_pos (by omega), ← hsum, Nat.add_sub_cancel_left]

theorem cutBytes?_append (before after : List Char) :
    cutBytes? (byteLength before) (before ++ after) = some (before, after) := by
  induction before with
  | nil => rw [byteLength_nil, cutBytes?, List.nil_append]
  | cons c before ih =>
      rw [byteLength_cons, List.cons_append, cutBytes?_cons, ih]
      rfl

theorem eq_append_of_cutBytes? (h : cutBytes? n s = some (before, after)) :
    s = before ++ after ∧ byteLength before = n := by
  fun_induction cutBytes? n s generalizing before with
  | case1 s =>
      obtain ⟨rfl, rfl⟩ := Prod.mk.inj (Option.some.inj h)
      exact ⟨rfl, rfl⟩
  | case2 => cases h
  | case3 n c s hc ih =>
      obtain ⟨⟨b, a⟩, hcut, hpair⟩ := Option.map_eq_some_iff.mp h
      obtain ⟨rfl, rfl⟩ := Prod.mk.inj hpair
      obtain ⟨rfl, hlength⟩ := ih hcut
      exact ⟨rfl, by rw [byteLength_cons, hlength]; omega⟩
  | case4 => cases h

/-! ## ASCII -/

/-- Each character takes one byte. -/
def Ascii (s : List Char) : Prop :=
  ∀ c ∈ s, c.toNat < 128

instance (s : List Char) : Decidable (Ascii s) :=
  List.decidableBAll (fun c : Char => c.toNat < 128) s

theorem Ascii.byteLength_eq (h : Ascii s) : byteLength s = s.length := by
  induction s with
  | nil => rfl
  | cons c rest ih =>
      obtain ⟨hc, hrest⟩ := List.forall_mem_cons.mp h
      have hsize : c.utf8Size = 1 := by
        rw [Char.utf8Size_eq_one_iff, UInt32.le_iff_toNat_le]
        exact Nat.le_of_lt_succ hc
      rw [byteLength_cons, ih hrest, hsize, List.length_cons, Nat.add_comm]

theorem Ascii.of_sameFolded (h : sameFolded s t = true) (ht : Ascii t) : Ascii s := by
  intro c hc
  have hlower : c.toLower ∈ lower t := by
    rw [← sameFolded_iff.mp h]
    exact List.mem_map_of_mem hc
  obtain ⟨d, hd, hfold⟩ := List.mem_map.mp hlower
  have hsmall := ht d hd
  rw [← Char.toNat_inj, toNat_toLower, toNat_toLower] at hfold
  split at hfold <;> split at hfold <;> omega

end Switchboard.Text
