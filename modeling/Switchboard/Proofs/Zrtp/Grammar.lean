import Switchboard.Proofs.Text.Bytes
import Switchboard.Proofs.Zrtp.Names

/-!
# The grammar of names in all categories

The five categories share one grammar, and their names do not get into each
other's way. Heads of full names differ in their first letter behind what they
have in common, no token starts like a head, and no token serves two categories.
So a head tells the category of all that stands behind it: behind a head there is
a token of that category, or there is no name at all.
-/

namespace Switchboard.Zrtp

open Text

/-! ## The five categories -/

inductive Kind
  | cipher
  | hash
  | authTag
  | keyAgreement
  | sas
  deriving DecidableEq

namespace Kind

def all : List Kind :=
  [cipher, hash, authTag, keyAgreement, sas]

def Algorithm : Kind → Type
  | cipher => Cipher
  | hash => Hash
  | authTag => AuthTag
  | keyAgreement => KeyAgreement
  | sas => Sas

instance category : (k : Kind) → Category k.Algorithm
  | cipher => inferInstanceAs (Category Cipher)
  | hash => inferInstanceAs (Category Hash)
  | authTag => inferInstanceAs (Category AuthTag)
  | keyAgreement => inferInstanceAs (Category KeyAgreement)
  | sas => inferInstanceAs (Category Sas)

instance lawfulCategory : (k : Kind) → LawfulCategory k.Algorithm
  | cipher => inferInstanceAs (LawfulCategory Cipher)
  | hash => inferInstanceAs (LawfulCategory Hash)
  | authTag => inferInstanceAs (LawfulCategory AuthTag)
  | keyAgreement => inferInstanceAs (LawfulCategory KeyAgreement)
  | sas => inferInstanceAs (LawfulCategory Sas)

/-- What full names of the category start with. -/
def head (k : Kind) : List Char :=
  nameHead k.Algorithm

/-- The algorithms of all categories. -/
def algorithms : List ((k : Kind) × k.Algorithm) :=
  all.flatMap fun k => (Category.all (α := k.Algorithm)).map fun a => ⟨k, a⟩

/-- Heads differ by the ninth letter. -/
theorem heads_table : Table all fun k => k.head.take 9 where
  complete k := by cases k <;> decide
  distinct := by decide +kernel

theorem tokens_apart : Table algorithms fun a => (Category.token a.2).toList where
  complete := by
    rintro ⟨k, a⟩
    refine List.mem_flatMap.mpr ⟨k, heads_table.complete k, ?_⟩
    exact List.mem_map_of_mem (LawfulCategory.mem_all a)
  distinct := by decide +kernel

theorem length_head (k : Kind) : 9 ≤ k.head.length := by
  cases k <;> decide

theorem ascii_head (k : Kind) : Ascii k.head := by
  cases k <;> decide +kernel

theorem first_head (k : Kind) : (lower k.head).head? = some 'm' := by
  cases k <;> decide

theorem first_token {k : Kind} (a : k.Algorithm) :
    (lower (Category.token a).toList).head? ≠ some 'm' := by
  have hall : ∀ a ∈ algorithms, (lower (Category.token a.2).toList).head? ≠ some 'm' := by
    decide +kernel
  exact hall ⟨k, a⟩ (tokens_apart.complete ⟨k, a⟩)

/-! ## Behind a head -/

variable {k k' : Kind} {s t rest rest' : List Char}

theorem not_token_behind_head (a : k.Algorithm) :
    lower (k'.head ++ rest) ≠ lower (Category.token a).toList := by
  intro h
  have hfirst := first_token a
  rw [← h, lower_append, List.head?_append, first_head] at hfirst
  exact hfirst rfl

theorem eq_of_heads (h : lower (k'.head ++ rest') = lower (k.head ++ rest)) : k' = k := by
  refine heads_table.eq_of_lower_name ?_
  have htake := congrArg (List.take 9) h
  unfold lower at htake ⊢
  rwa [← List.map_take, ← List.map_take, List.take_append_of_le_length k'.length_head,
    List.take_append_of_le_length k.length_head] at htake

/-- A name with a head is the full name of an algorithm of that category. -/
theorem of_spells_behind_head {a : k.Algorithm} (h : Spells a t)
    (ht : sameFolded (trim t) (k'.head ++ rest) = true) :
    k' = k ∧ sameFolded rest (Category.token a).toList = true := by
  rw [sameFolded_iff] at ht
  rcases h with htoken | hfull
  · rw [sameFolded_iff, ht] at htoken
    exact absurd htoken (not_token_behind_head a)
  · rw [sameFolded_iff, ht, toList_fullName] at hfull
    obtain rfl := eq_of_heads hfull
    rw [lower_append, lower_append] at hfull
    exact ⟨rfl, sameFolded_iff.mpr (List.append_cancel_left hfull)⟩

/-- The text is no name of the category, and the error gives it back without the
blanks around it. -/
def Rejects (k : Kind) (s : String) : Prop :=
  parse k.Algorithm s = .error ⟨Category.label k.Algorithm, String.ofList (trim s.toList)⟩

theorem rejects_iff {s : String} : k.Rejects s ↔ ∀ a : k.Algorithm, ¬Spells a s.toList := by
  unfold Rejects parse
  rw [read_eq_error_iff, and_iff_left rfl]

theorem rejects_behind_other_head {s : String} (hk : k' ≠ k)
    (h : sameFolded (trim s.toList) (k'.head ++ rest) = true) : k.Rejects s :=
  rejects_iff.mpr fun _ ha => hk (of_spells_behind_head ha h).1

/-- Behind the head of a category there is one of its tokens or no name at all. -/
theorem rejects_behind_head {s : String}
    (hrest : ∀ a : k'.Algorithm, ¬sameFolded rest (Category.token a).toList = true)
    (h : sameFolded (trim s.toList) (k'.head ++ rest) = true) (k : Kind) : k.Rejects s := by
  refine rejects_iff.mpr fun a ha => ?_
  obtain ⟨rfl, htoken⟩ := of_spells_behind_head ha h
  exact hrest a htoken

theorem not_token_of_other (hk : k' ≠ k) (a : k'.Algorithm) (b : k.Algorithm) :
    ¬sameFolded (Category.token a).toList (Category.token b).toList = true := by
  rw [sameFolded_iff]
  intro h
  have heq : (⟨k', a⟩ : (k : Kind) × k.Algorithm) = ⟨k, b⟩ := tokens_apart.eq_of_lower_name h
  exact hk (congrArg Sigma.fst heq)

end Kind

/-! ## Heads by their bytes -/

section

variable (α : Type) [Category α]

/-- The text without the head of a full name, where the head is looked for in as
many bytes as it has. -/
def bareTokenByBytes (s : List Char) : List Char :=
  match cutBytes? (byteLength (nameHead α)) s with
  | some (before, after) =>
    if byteLength (nameHead α) < byteLength s ∧ sameFolded before (nameHead α) then after else s
  | none => s

variable {α}

/-- Characters that take several bytes make no difference. -/
theorem bareTokenByBytes_eq (hascii : Ascii (nameHead α)) (s : List Char) :
    bareTokenByBytes α s = bareToken α s := by
  have hlengths : ∀ before, sameFolded before (nameHead α) = true →
      byteLength before = byteLength (nameHead α) ∧ before.length = (nameHead α).length := by
    intro before h
    have hlength := length_eq_of_sameFolded h
    rw [(hascii.of_sameFolded h).byteLength_eq, hascii.byteLength_eq]
    exact ⟨hlength, hlength⟩
  unfold bareTokenByBytes bareToken
  dsimp only
  split_ifs with hfull
  · obtain ⟨hlong, hhead⟩ := hfull
    have hcut := cutBytes?_append (s.take (nameHead α).length) (s.drop (nameHead α).length)
    rw [List.take_append_drop, (hlengths _ hhead).1] at hcut
    have hbytes : byteLength (nameHead α) < byteLength s := by
      have hrest : 0 < byteLength (s.drop (nameHead α).length) :=
        byteLength_pos (by simpa using hlong)
      obtain ⟨hs, hbefore⟩ := eq_append_of_cutBytes? hcut
      rw [hs, byteLength_append]
      omega
    rw [hcut]
    exact if_pos ⟨hbytes, hhead⟩
  · split
    · rename_i before after hcut
      refine if_neg fun ⟨hlong, hhead⟩ => hfull ?_
      obtain ⟨rfl, hbefore⟩ := eq_append_of_cutBytes? hcut
      have hlength := (hlengths before hhead).2
      have hafter : after ≠ [] := by
        rintro rfl
        rw [List.append_nil, hbefore] at hlong
        exact Nat.lt_irrefl _ hlong
      rw [List.take_left' hlength, List.length_append, hlength]
      exact ⟨Nat.lt_add_of_pos_right (List.length_pos_of_ne_nil hafter), hhead⟩
    · rfl

end

/-! ## All names -/

/-- **The grammar of names.** In each of the five categories a text is read as an
algorithm exactly if, without the blanks around it, it is the token or the full
name of that algorithm in any letter case, so that no text names two. Every other
text is given back in the error without the blanks around it. Such is whatever
stands behind the head of another category, a token of one category behind the
head of another, and whatever stands behind two heads. A list is read as these
algorithms exactly if its commas part it into pieces that name them in this order,
with blank and unknown pieces anywhere in between. The head of a full name is the
same whether it is told by its characters or by its bytes. -/
theorem grammar_of_names (k : Kind) (s : String) :
    let text := trim s.toList
    (∀ a : k.Algorithm, parse k.Algorithm s = .ok a ↔
      sameFolded text (Category.token a).toList = true ∨
        sameFolded text (fullName a).toList = true) ∧
    (∀ a b : k.Algorithm, Spells a s.toList → Spells b s.toList → a = b) ∧
    (k.Rejects s ↔ ∀ a : k.Algorithm, ¬Spells a s.toList) ∧
    (∀ (k' : Kind) (rest : List Char), k' ≠ k →
      sameFolded text (k'.head ++ rest) = true → k.Rejects s) ∧
    (∀ (k' k'' : Kind) (a : k''.Algorithm), k'' ≠ k' →
      sameFolded text (k'.head ++ (Category.token a).toList) = true → k.Rejects s) ∧
    (∀ (k' k'' : Kind) (rest : List Char),
      sameFolded text (k'.head ++ (k''.head ++ rest)) = true → k.Rejects s) ∧
    (∀ as : List k.Algorithm, parseList k.Algorithm (some s) = as ↔
      ∃ pieces, s.toList = [','].intercalate pieces ∧ Names as pieces) ∧
    bareTokenByBytes k.Algorithm text = bareToken k.Algorithm text := by
  intro text
  refine ⟨fun a => read_eq_ok_iff, fun a b => Spells.unique, Kind.rejects_iff, ?_, ?_, ?_,
    fun as => parseList_eq_iff, bareTokenByBytes_eq k.ascii_head text⟩
  · intro k' rest hk
    exact Kind.rejects_behind_other_head hk
  · intro k' k'' a hk hname
    exact Kind.rejects_behind_head (Kind.not_token_of_other hk a) hname k
  · intro k' k'' rest hname
    refine Kind.rejects_behind_head (fun a htoken => ?_) hname k
    exact Kind.not_token_behind_head a (sameFolded_iff.mp htoken)

/-- One entry is empty, one unknown, and one algorithm is named twice. -/
example : parseList Cipher (some " aes3,, MS_ZRTP_cipher_AES1 ,AES9,AES3") =
    [.aes3, .aes1, .aes3] := by
  decide +kernel

end Switchboard.Zrtp
