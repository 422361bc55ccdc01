import Mathlib.Data.List.Nodup
import Switchboard.Text.Fold

/-!
# Names in any letter case

Upper and lower case tell the same letters apart, so it makes no difference to
which of them a text is folded. A table whose names differ in more than letter
case is looked up by any spelling of a name, and finds nothing else.
-/

namespace Switchboard.Text

variable {s t : List Char}

/-! ## Either case -/

theorem toNat_toLower (c : Char) :
    c.toLower.toNat = if 65 ≤ c.toNat ∧ c.toNat ≤ 90 then c.toNat + 32 else c.toNat := by
  have hrange : (c.val ≥ 'A'.val ∧ c.val ≤ 'Z'.val) ↔ 65 ≤ c.toNat ∧ c.toNat ≤ 90 := by
    simp [UInt32.le_iff_toNat_le]
  unfold Char.toLower
  split
  · rename_i h
    obtain ⟨-, hlast⟩ := hrange.mp h
    have hfits : c.val.toNat + 32 < 2 ^ 32 :=
      Nat.lt_of_le_of_lt (Nat.add_le_add_right hlast 32) (by decide)
    rw [if_pos (hrange.mp h)]
    show (c.val + 32).toNat = c.val.toNat + 32
    rw [UInt32.toNat_add]
    exact Nat.mod_eq_of_lt hfits
  · rename_i h
    rw [if_neg (mt hrange.mpr h)]

theorem toNat_toUpper (c : Char) :
    c.toUpper.toNat = if 97 ≤ c.toNat ∧ c.toNat ≤ 122 then c.toNat - 32 else c.toNat := by
  have hrange : ('a'.val ≤ c.val ∧ c.val ≤ 'z'.val) ↔ 97 ≤ c.toNat ∧ c.toNat ≤ 122 := by
    simp [UInt32.le_iff_toNat_le]
  unfold Char.toUpper
  split
  · rename_i h
    obtain ⟨hfirst, -⟩ := hrange.mp h
    have hback : (65 - 97 : UInt32).toNat = 2 ^ 32 - 32 := rfl
    rw [if_pos (hrange.mp h)]
    -- the difference of the cases is taken off by adding what wraps around to it
    show (c.val + (65 - 97)).toNat = c.val.toNat - 32
    have hbound : c.val.toNat < 2 ^ 32 := c.val.toNat_lt
    have hfirst : 97 ≤ c.val.toNat := hfirst
    rw [UInt32.toNat_add, hback]
    omega
  · rename_i h
    rw [if_neg (mt hrange.mpr h)]

theorem toUpper_toLower (c : Char) : c.toLower.toUpper = c.toUpper := by
  rw [← Char.toNat_inj, toNat_toUpper, toNat_toUpper, toNat_toLower]
  grind

theorem toLower_toUpper (c : Char) : c.toUpper.toLower = c.toLower := by
  rw [← Char.toNat_inj, toNat_toLower, toNat_toLower, toNat_toUpper]
  grind

theorem upper_lower (s : List Char) : upper (lower s) = upper s := by
  unfold upper lower
  rw [List.map_map]
  exact List.map_congr_left fun c _ => toUpper_toLower c

theorem lower_upper (s : List Char) : lower (upper s) = lower s := by
  unfold upper lower
  rw [List.map_map]
  exact List.map_congr_left fun c _ => toLower_toUpper c

theorem upper_eq_upper_iff : upper s = upper t ↔ sameFolded s t = true := by
  rw [sameFolded_iff]
  constructor
  · intro h
    rw [← lower_upper s, h, lower_upper]
  · intro h
    rw [← upper_lower s, h, upper_lower]

/-! ## Tables of names -/

variable {α : Type} {all : List α} {name : α → List Char} {p : α → Bool} {a : α}

/-- Everything is listed, under names that differ in more than letter case. -/
structure Table (all : List α) (name : α → List Char) : Prop where
  complete : ∀ a, a ∈ all
  distinct : (all.map fun a => lower (name a)).Nodup

namespace Table

theorem eq_of_lower_name (h : Table all name) {a b : α} (hname : lower (name a) = lower (name b)) :
    a = b :=
  List.inj_on_of_nodup_map h.distinct (h.complete a) (h.complete b) hname

/-- The entry that is found is the one whose name is spelled. -/
theorem find?_eq_some_iff (h : Table all name)
    (hp : ∀ a, p a = true ↔ sameFolded s (name a) = true) :
    all.find? p = some a ↔ sameFolded s (name a) = true := by
  constructor
  · intro hfind
    exact (hp a).mp (List.find?_some hfind)
  · intro ha
    obtain ⟨b, hfind⟩ := Option.isSome_iff_exists.mp
      (List.find?_isSome.mpr ⟨a, h.complete a, (hp a).mpr ha⟩)
    have hb := (hp b).mp (List.find?_some hfind)
    rw [sameFolded_iff] at ha hb
    rw [hfind, h.eq_of_lower_name (hb.symm.trans ha)]

theorem find?_eq_none_iff (h : Table all name)
    (hp : ∀ a, p a = true ↔ sameFolded s (name a) = true) :
    all.find? p = none ↔ ∀ a, ¬sameFolded s (name a) = true := by
  rw [List.find?_eq_none]
  exact forall_congr' fun a => ⟨fun hnot ha => hnot (h.complete a) ((hp a).mpr ha),
    fun hnot _ ha => hnot ((hp a).mp ha)⟩

end Table

end Switchboard.Text
