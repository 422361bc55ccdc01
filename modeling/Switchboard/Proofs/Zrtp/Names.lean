import Mathlib.Data.List.Forall2
import Switchboard.Proofs.Text.Entries
import Switchboard.Proofs.Text.Fold
import Switchboard.Zrtp.Algorithm

/-!
# Names of algorithms

An algorithm is read from its token and from its full name, in any letter case
and with blanks around it. What this rests on is the same for all categories:
tokens differ in more than letter case, none is as long as the head of a full
name, and no name holds a comma. So nothing else is read as an algorithm, no text
names two of a category, and a list reads as the algorithms that its pieces name.
-/

namespace Switchboard.Zrtp

open Text

/-! ## Lawful categories -/

/-- All algorithms are listed, each under a token of its own that is no full
name and cannot be taken for several entries of a list. -/
class LawfulCategory (α : Type) [Category α] : Prop where
  mem_all (a : α) : a ∈ Category.all (α := α)
  distinct : ((Category.all (α := α)).map fun a => lower (Category.token a).toList).Nodup
  tokens : ∀ a ∈ Category.all (α := α), (Category.token a).toList ≠ [] ∧
    (Category.token a).toList.length ≤ (nameHead α).length ∧
    ',' ∉ lower (Category.token a).toList
  comma_not_mem_head : ',' ∉ lower (nameHead α)

instance : LawfulCategory Cipher where
  mem_all a := by cases a <;> decide
  distinct := by decide +kernel
  tokens := by decide +kernel
  comma_not_mem_head := by decide +kernel

instance : LawfulCategory Hash where
  mem_all a := by cases a <;> decide
  distinct := by decide +kernel
  tokens := by decide +kernel
  comma_not_mem_head := by decide +kernel

instance : LawfulCategory AuthTag where
  mem_all a := by cases a <;> decide
  distinct := by decide +kernel
  tokens := by decide +kernel
  comma_not_mem_head := by decide +kernel

instance : LawfulCategory KeyAgreement where
  mem_all a := by cases a <;> decide
  distinct := by decide +kernel
  tokens := by decide +kernel
  comma_not_mem_head := by decide +kernel

instance : LawfulCategory Sas where
  mem_all a := by cases a <;> decide
  distinct := by decide +kernel
  tokens := by decide +kernel
  comma_not_mem_head := by decide +kernel

/-! ## One name -/

variable {α : Type} [Category α] {a : α} {as : List α} {s t : List Char}
  {piece : List Char} {pieces : List (List Char)}

/-- The text is the token or the full name of the algorithm, in any letter
case and with any blanks around it. -/
def Spells (a : α) (t : List Char) : Prop :=
  sameFolded (trim t) (Category.token a).toList = true ∨
    sameFolded (trim t) (fullName a).toList = true

instance (a : α) (t : List Char) : Decidable (Spells a t) :=
  inferInstanceAs (Decidable (_ ∨ _))

theorem toList_fullName (a : α) :
    (fullName a).toList = nameHead α ++ (Category.token a).toList :=
  String.toList_ofList

/-- What is taken off a text is the head of a full name. -/
theorem bareToken_cases (s : List Char) :
    bareToken α s = s ∨ sameFolded s (nameHead α ++ bareToken α s) = true := by
  unfold bareToken
  dsimp only
  split
  · rename_i h
    right
    rw [sameFolded_iff, lower_append, ← sameFolded_iff.mp h.2, ← lower_append,
      List.take_append_drop]
  · exact .inl rfl

theorem spells_of_bareToken
    (h : sameFolded (bareToken α (Text.trim t)) (Category.token a).toList = true) :
    Spells a t := by
  rcases bareToken_cases (α := α) (Text.trim t) with hbare | hfull
  · rw [hbare] at h
    exact .inl h
  · right
    rw [sameFolded_iff] at h hfull ⊢
    rw [hfull, toList_fullName, lower_append, lower_append, h]

theorem read_trim (t : List Char) : read α (trim t) = read α t := by
  unfold Zrtp.read trim
  rw [strip_strip]

/-! ## Pieces of a list -/

/-- The pieces of a list name these algorithms, one after the other. In between
stand blank pieces and pieces that name none. -/
inductive Names : List α → List (List Char) → Prop
  | nil : Names [] []
  | name {a : α} {as : List α} {piece : List Char} {pieces : List (List Char)}
      (spelled : Spells a piece) (later : Names as pieces) : Names (a :: as) (piece :: pieces)
  | blank {as : List α} {piece : List Char} {pieces : List (List Char)}
      (blank : trim piece = []) (later : Names as pieces) : Names as (piece :: pieces)
  | unknown {as : List α} {piece : List Char} {pieces : List (List Char)}
      (unmarked : ',' ∉ piece) (unknown : ∀ a : α, ¬Spells a piece) (later : Names as pieces) :
      Names as (piece :: pieces)

/-- The text consists of names of these algorithms with commas between them. -/
def Lists (as : List α) (s : String) : Prop :=
  ∃ texts, List.Forall₂ Spells as texts ∧ s.toList = [','].intercalate texts

theorem names_of_spelled {texts : List (List Char)} (h : List.Forall₂ Spells as texts) :
    Names as texts := by
  induction h with
  | nil => exact .nil
  | cons hspells _ ih => exact .name hspells ih

/-- What is read of the pieces of a list. -/
def readPieces (α : Type) [Category α] (pieces : List (List Char)) : List α :=
  ((pieces.map trim).filter (· ≠ [])).filterMap fun entry => (read α entry).toOption

theorem readPieces_of_blank (h : trim piece = []) :
    readPieces α (piece :: pieces) = readPieces α pieces := by
  unfold readPieces
  rw [List.map_cons, List.filter_cons_of_neg (by simp [h])]

theorem readPieces_of_ne_nil (h : trim piece ≠ []) :
    readPieces α (piece :: pieces) =
      (read α piece).toOption.toList ++ readPieces α pieces := by
  unfold readPieces
  rw [List.map_cons, List.filter_cons_of_pos (by simp [h]), List.filterMap_cons, read_trim]
  cases (read α piece).toOption <;> rfl

theorem parseList_intercalate {s : String} (hs : s.toList = [','].intercalate pieces)
    (h : ∀ piece ∈ pieces, ',' ∉ piece) : parseList α (some s) = readPieces α pieces := by
  unfold parseList readList readPieces
  dsimp only
  rw [entries_eq_iff.mpr ⟨pieces, hs, h, rfl⟩]

/-! ## What is read of a name -/

variable [LawfulCategory α]

theorem token_ne_nil (a : α) : (Category.token a).toList ≠ [] :=
  (LawfulCategory.tokens a (LawfulCategory.mem_all a)).1

theorem length_token_le (a : α) : (Category.token a).toList.length ≤ (nameHead α).length :=
  (LawfulCategory.tokens a (LawfulCategory.mem_all a)).2.1

theorem comma_not_mem_token (a : α) : ',' ∉ lower (Category.token a).toList :=
  (LawfulCategory.tokens a (LawfulCategory.mem_all a)).2.2

theorem tokens_table : Table (Category.all (α := α)) fun a => (Category.token a).toList where
  complete := LawfulCategory.mem_all
  distinct := LawfulCategory.distinct

theorem find?_token_eq_some_iff :
    ((Category.all (α := α)).find? fun b => sameFolded (Category.token b).toList s) = some a ↔
      sameFolded s (Category.token a).toList = true := by
  refine tokens_table.find?_eq_some_iff fun b => ?_
  rw [sameFolded_comm]

/-- A token is too short to start with the head of a full name. -/
theorem bareToken_of_token (h : sameFolded s (Category.token a).toList = true) :
    bareToken α s = s := by
  have hlength : ¬ (nameHead α).length < s.length := by
    rw [length_eq_of_sameFolded h, Nat.not_lt]
    exact length_token_le a
  unfold bareToken
  exact if_neg fun hfull => hlength hfull.1

theorem bareToken_of_fullName (h : sameFolded s (fullName a).toList = true) :
    sameFolded (bareToken α s) (Category.token a).toList = true := by
  rw [toList_fullName] at h
  have hlong : (nameHead α).length < s.length := by
    rw [length_eq_of_sameFolded h, List.length_append]
    exact Nat.lt_add_of_pos_right (List.length_pos_of_ne_nil (token_ne_nil a))
  rw [sameFolded_iff, lower_append] at h
  have hhead : sameFolded (s.take (nameHead α).length) (nameHead α) = true := by
    have htake := congrArg (List.take (nameHead α).length) h
    rw [List.take_left' (length_lower _)] at htake
    rw [sameFolded_iff, ← htake]
    exact List.map_take
  have htoken : lower (s.drop (nameHead α).length) = lower (Category.token a).toList := by
    have hdrop := congrArg (List.drop (nameHead α).length) h
    rw [List.drop_left' (length_lower _)] at hdrop
    rw [← hdrop]
    exact List.map_drop
  unfold bareToken
  dsimp only
  rw [if_pos ⟨hlong, hhead⟩, sameFolded_iff, htoken]

theorem Spells.read (h : Spells a t) : read α t = .ok a := by
  have hbare : sameFolded (bareToken α (Text.trim t)) (Category.token a).toList = true := by
    rcases h with htoken | hfull
    · rwa [bareToken_of_token htoken]
    · exact bareToken_of_fullName hfull
  unfold Zrtp.read
  dsimp only
  rw [find?_token_eq_some_iff.mpr hbare]

/-- Exactly the spellings of an algorithm are read as that algorithm. -/
theorem read_eq_ok_iff : read α t = .ok a ↔ Spells a t := by
  refine ⟨fun h => ?_, Spells.read⟩
  unfold Zrtp.read at h
  dsimp only at h
  split at h
  · rename_i b hfind
    obtain rfl := Except.ok.inj h
    exact spells_of_bareToken (find?_token_eq_some_iff.mp hfind)
  · cases h

theorem Spells.unique {b : α} (h : Spells a t) (h' : Spells b t) : a = b :=
  Except.ok.inj (h.read.symm.trans h'.read)

/-- Whatever else is read is given back in the error, without the blanks around
it. -/
theorem read_of_not_spelled (h : ∀ a : α, ¬Spells a t) :
    read α t = .error ⟨Category.label α, String.ofList (Text.trim t)⟩ := by
  cases hread : read α t with
  | ok a => exact absurd (read_eq_ok_iff.mp hread) (h a)
  | error e =>
      unfold Zrtp.read at hread
      dsimp only at hread
      split at hread
      · cases hread
      · exact hread.symm

theorem read_eq_error_iff {e : Unknown} : read α t = .error e ↔
    (∀ a : α, ¬Spells a t) ∧ e = ⟨Category.label α, String.ofList (Text.trim t)⟩ := by
  constructor
  · intro h
    have hnot : ∀ a : α, ¬Spells a t := by
      intro a ha
      rw [ha.read] at h
      cases h
    rw [read_of_not_spelled hnot] at h
    exact ⟨hnot, (Except.error.inj h).symm⟩
  · rintro ⟨hnot, rfl⟩
    exact read_of_not_spelled hnot

theorem Spells.trim_ne_nil (h : Spells a t) : Text.trim t ≠ [] := by
  intro hnil
  have htoken := token_ne_nil a
  rcases h with h | h
  · have hlength := length_eq_of_sameFolded h
    rw [hnil] at hlength
    exact htoken (List.eq_nil_of_length_eq_zero hlength.symm)
  · have hlength := length_eq_of_sameFolded h
    rw [hnil, toList_fullName, List.length_append, List.length_nil] at hlength
    exact htoken (List.eq_nil_of_length_eq_zero (by omega))

theorem Spells.comma_not_mem (h : Spells a t) : ',' ∉ t := by
  have htrimmed : ',' ∉ Text.trim t := by
    rcases h with h | h
    · exact not_mem_of_sameFolded h (by decide) (comma_not_mem_token a)
    · refine not_mem_of_sameFolded h (by decide) ?_
      rw [toList_fullName, lower_append, List.mem_append, not_or]
      exact ⟨LawfulCategory.comma_not_mem_head, comma_not_mem_token a⟩
  exact fun hmem => htrimmed (mem_strip hmem (by decide))

/-! ## What is read of a list -/

theorem Names.unmarked (h : Names as pieces) : ∀ piece ∈ pieces, ',' ∉ piece := by
  induction h with
  | nil => simp
  | name spelled _ ih => exact List.forall_mem_cons.mpr ⟨spelled.comma_not_mem, ih⟩
  | blank blank _ ih =>
      refine List.forall_mem_cons.mpr ⟨fun hmem => ?_, ih⟩
      have hkept := mem_strip hmem (by decide : isBlank ',' = false)
      rw [← trim, blank] at hkept
      cases hkept
  | unknown unmarked _ _ ih => exact List.forall_mem_cons.mpr ⟨unmarked, ih⟩

theorem readPieces_of_spelled (h : Spells a piece) :
    readPieces α (piece :: pieces) = a :: readPieces α pieces := by
  rw [readPieces_of_ne_nil h.trim_ne_nil, h.read]
  rfl

theorem readPieces_of_unknown (h : ∀ a : α, ¬Spells a piece) :
    readPieces α (piece :: pieces) = readPieces α pieces := by
  by_cases hblank : trim piece = []
  · exact readPieces_of_blank hblank
  · rw [readPieces_of_ne_nil hblank, read_of_not_spelled h]
    rfl

theorem Names.readPieces_eq (h : Names as pieces) : readPieces α pieces = as := by
  induction h with
  | nil => rfl
  | name spelled _ ih => rw [readPieces_of_spelled spelled, ih]
  | blank blank _ ih => rw [readPieces_of_blank blank, ih]
  | unknown _ unknown _ ih => rw [readPieces_of_unknown unknown, ih]

/-- Any pieces name some algorithms. -/
theorem names_readPieces (h : ∀ piece ∈ pieces, ',' ∉ piece) :
    Names (readPieces α pieces) pieces := by
  induction pieces with
  | nil => exact .nil
  | cons piece pieces ih =>
      obtain ⟨hpiece, hpieces⟩ := List.forall_mem_cons.mp h
      by_cases hspelled : ∃ a : α, Spells a piece
      · obtain ⟨a, ha⟩ := hspelled
        rw [readPieces_of_spelled ha]
        exact .name ha (ih hpieces)
      · rw [not_exists] at hspelled
        rw [readPieces_of_unknown hspelled]
        exact .unknown hpiece hspelled (ih hpieces)

/-- A list reads as these algorithms exactly if its pieces name them. -/
theorem parseList_eq_iff {s : String} : parseList α (some s) = as ↔
    ∃ pieces, s.toList = [','].intercalate pieces ∧ Names as pieces := by
  constructor
  · rintro rfl
    have hpieces : ∀ piece ∈ s.toList.splitOn ',', ',' ∉ piece :=
      fun _ hpiece hmark => (mem_of_mem_splitOn hpiece hmark).2 rfl
    have hs : s.toList = [','].intercalate (s.toList.splitOn ',') :=
      (List.intercalate_splitOn ',').symm
    refine ⟨s.toList.splitOn ',', hs, ?_⟩
    rw [parseList_intercalate hs hpieces]
    exact names_readPieces hpieces
  · rintro ⟨pieces, hs, h⟩
    rw [parseList_intercalate hs h.unmarked, h.readPieces_eq]

/-- A list of names reads back as the algorithms named. -/
theorem Lists.parseList {s : String} (h : Lists as s) : parseList α (some s) = as := by
  obtain ⟨texts, htexts, hs⟩ := h
  exact parseList_eq_iff.mpr ⟨texts, hs, names_of_spelled htexts⟩

end Switchboard.Zrtp
