import Switchboard.Proofs.Markup.Element

/-!
# Markup read up to a point

Once all markup in a text has been read, what follows cannot change how: every
tag, comment and instruction ended before, and what comes next is scanned on its
own.
-/

namespace Switchboard.Markup

variable {s rest inside mark : List Char} {tags : List Tag} {tag? : Option Tag}

/-! ## Ends of markup -/

/-- A mark as long as the text at most is looked for within the text. -/
theorem dropHead?_append_of_none (h : Text.dropHead? mark s = none)
    (hlength : mark.length ≤ s.length) (later : List Char) :
    Text.dropHead? mark (s ++ later) = none := by
  rw [Option.eq_none_iff_forall_not_mem]
  intro found hfound
  have happend := Text.dropHead?_eq_some_iff.mp hfound
  have hhead : mark <+: s :=
    List.prefix_of_prefix_length_le ⟨found, happend.symm⟩ (List.prefix_append s later) hlength
  obtain ⟨tail, htail⟩ := hhead
  rw [Text.dropHead?_eq_some_iff.mpr htail.symm] at h
  cases h

theorem length_mark_of_after? (h : after? mark s = some rest) : mark.length ≤ s.length := by
  induction s with
  | nil =>
      rw [after?] at h
      split at h
      · rename_i hmark
        subst hmark
        exact Nat.zero_le _
      · cases h
  | cons c s ih =>
      rw [after?] at h
      split at h
      · rename_i found hfound
        have hlength := congrArg List.length (Text.dropHead?_eq_some_iff.mp hfound)
        rw [List.length_append] at hlength
        omega
      · exact Nat.le_succ_of_le (ih h)

theorem after?_append (hmark : mark ≠ []) (h : after? mark s = some rest) (later : List Char) :
    after? mark (s ++ later) = some (rest ++ later) := by
  induction s with
  | nil =>
      rw [after?, if_neg hmark] at h
      cases h
  | cons c s ih =>
      rw [after?] at h
      split at h
      · rename_i found hfound
        obtain rfl := Option.some.inj h
        have happend := Text.dropHead?_eq_some_iff.mp hfound
        have hlater : Text.dropHead? mark (c :: (s ++ later)) = some (found ++ later) := by
          rw [Text.dropHead?_eq_some_iff, ← List.cons_append, happend, List.append_assoc]
        rw [List.cons_append, after?, hlater]
      · rename_i hnone
        have hlength := Nat.le_succ_of_le (length_mark_of_after? h)
        have hlater := dropHead?_append_of_none hnone hlength later
        rw [List.cons_append] at hlater
        rw [List.cons_append, after?, hlater]
        exact ih h

theorem readInside_append {quote? : Option Char} (h : readInside quote? s = some (inside, rest))
    (later : List Char) : readInside quote? (s ++ later) = some (inside, rest ++ later) := by
  fun_induction readInside quote? s generalizing inside with
  | case1 => cases h
  | case2 quote? c tail hend =>
      obtain ⟨rfl, rfl⟩ := Prod.mk.inj (Option.some.inj h)
      rw [List.cons_append, readInside.eq_def]
      exact if_pos hend
  | case3 =>
      rename_i hgoes ih
      obtain ⟨⟨inner, after⟩, hread, heq⟩ := Option.map_eq_some_iff.mp h
      obtain ⟨rfl, rfl⟩ := Prod.mk.inj heq
      rw [List.cons_append, readInside.eq_def]
      dsimp only
      rw [if_neg hgoes, ih hread]
      rfl

theorem readDoctype_append {depth : Nat} (h : readDoctype depth s = some (inside, rest))
    (later : List Char) : readDoctype depth (s ++ later) = some (inside, rest ++ later) := by
  fun_induction readDoctype depth s generalizing inside with
  | case1 => cases h
  | case2 tail =>
      obtain ⟨rfl, rfl⟩ := Prod.mk.inj (Option.some.inj h)
      rfl
  | case3 tail depth ih =>
      obtain ⟨⟨inner, after⟩, hread, heq⟩ := Option.map_eq_some_iff.mp h
      obtain ⟨rfl, rfl⟩ := Prod.mk.inj heq
      rw [List.cons_append, readDoctype, ih hread]
      rfl
  | case4 =>
      rename_i hopen _ ih
      obtain ⟨⟨inner, after⟩, hread, heq⟩ := Option.map_eq_some_iff.mp h
      obtain ⟨rfl, rfl⟩ := Prod.mk.inj heq
      rw [List.cons_append, readDoctype]
      · dsimp only
        rw [ih hread]
        rfl
      · exact hopen

/-! ## Markup after an opening bracket -/

/-- What is read of a document type starts as the text does. -/
theorem head_of_readDoctype {depth : Nat} {c : Char}
    (h : readDoctype depth s = some (c :: inside, rest)) : ∃ tail, s = c :: tail := by
  fun_induction readDoctype depth s with
  | case1 => cases h
  | case2 tail => cases h
  | case3 tail | case4 _ _ tail =>
      obtain ⟨⟨inner, after⟩, -, heq⟩ := Option.map_eq_some_iff.mp h
      obtain ⟨heq, -⟩ := Prod.mk.inj heq
      exact ⟨tail, by rw [(List.cons.inj heq).1]⟩

theorem head_of_isDoctype (h : isDoctype inside = true) :
    ∃ c tail, inside = c :: tail ∧ c.toLower = 'd' := by
  unfold isDoctype at h
  rw [Bool.and_eq_true, Text.sameFolded_iff] at h
  cases inside with
  | nil => exact absurd h.1 (by decide)
  | cons c tail => exact ⟨c, tail, rfl, (List.cons.inj h.1).1⟩

/-- A document type starts with its keyword, so it is neither a comment nor a
literal section, whatever follows. -/
theorem of_readDoctype {depth : Nat} (h : readDoctype depth s = some (inside, rest))
    (hdoctype : isDoctype inside = true) : ∃ c tail, s = c :: tail ∧ c ≠ '-' ∧ c ≠ '[' := by
  obtain ⟨c, more, rfl, hc⟩ := head_of_isDoctype hdoctype
  obtain ⟨tail, rfl⟩ := head_of_readDoctype h
  refine ⟨c, tail, rfl, ?_, ?_⟩
  · rintro rfl
    exact absurd hc (by decide)
  · rintro rfl
    exact absurd hc (by decide)

theorem readMarkup_append (h : readMarkup s = some (tag?, rest)) (later : List Char) :
    readMarkup (s ++ later) = some (tag?, rest ++ later) := by
  unfold readMarkup at h
  split at h
  case h_1 => cases h
  case h_2 s =>
    obtain ⟨after, hread, heq⟩ := Option.map_eq_some_iff.mp h
    obtain ⟨rfl, rfl⟩ := Prod.mk.inj heq
    simp only [List.cons_append, readMarkup, after?_append (by decide) hread, Option.map_some]
  case h_3 s =>
    obtain ⟨after, hread, heq⟩ := Option.map_eq_some_iff.mp h
    obtain ⟨rfl, rfl⟩ := Prod.mk.inj heq
    simp only [List.cons_append, readMarkup, after?_append (by decide) hread, Option.map_some]
  case h_4 s _ _ =>
    obtain ⟨⟨inside, after⟩, hread, hif⟩ := Option.bind_eq_some_iff.mp h
    dsimp only at hif
    split at hif
    · rename_i hdoctype
      obtain ⟨rfl, rfl⟩ := Prod.mk.inj (Option.some.inj hif)
      obtain ⟨c, tail, rfl, hcomment, hliteral⟩ := of_readDoctype hread hdoctype
      have hlater := readDoctype_append hread later
      rw [List.cons_append] at hlater
      rw [List.cons_append, List.cons_append, readMarkup, hlater, Option.bind_some]
      · exact if_pos hdoctype
      · intro t heq
        exact hcomment (List.cons.inj heq).1
      · intro t heq
        exact hliteral (List.cons.inj heq).1
    · cases hif
  case h_5 => cases h
  case h_6 s hne =>
    obtain ⟨after, hread, heq⟩ := Option.map_eq_some_iff.mp h
    obtain ⟨rfl, rfl⟩ := Prod.mk.inj heq
    cases s with
    | nil => cases hread
    | cons c s =>
        have hlater := after?_append (by decide) hread later
        rw [List.cons_append] at hlater
        rw [List.cons_append, List.cons_append, readMarkup, hlater]
        · rfl
        · intro t heq
          exact hne s (by rw [(List.cons.inj heq).1])
  case h_7 s =>
    obtain ⟨⟨name, after⟩, hread, heq⟩ := Option.map_eq_some_iff.mp h
    obtain ⟨rfl, rfl⟩ := Prod.mk.inj heq
    simp only [List.cons_append, readMarkup, readInside_append hread, Option.map_some]
  case h_8 hempty _ _ hmark _ hinstruction hclose =>
    cases s with
    | nil => exact absurd rfl hempty
    | cons c s =>
        have hc : c ≠ '!' ∧ c ≠ '?' ∧ c ≠ '/' := by
          refine ⟨?_, ?_, ?_⟩
          · rintro rfl
            exact hmark s rfl
          · rintro rfl
            exact hinstruction s rfl
          · rintro rfl
            exact hclose s rfl
        obtain ⟨⟨inside, after⟩, hread, heq⟩ := Option.map_eq_some_iff.mp h
        obtain ⟨rfl, rfl⟩ := Prod.mk.inj heq
        have hlater := readInside_append hread later
        rw [List.cons_append] at hlater
        rw [List.cons_append, readMarkup_element hc, hlater]
        rfl

/-! ## Whole texts -/

/-- **What has been scanned stays scanned.** -/
theorem scan_append (h : scan s = some tags) (later : List Char) :
    scan (s ++ later) = (scan later).map (tags ++ ·) := by
  fun_induction scan s generalizing tags with
  | case1 =>
      obtain rfl := Option.some.inj h
      exact Option.map_id'.symm
  | case2 => cases h
  | case3 =>
      rename_i hread _ ih
      obtain ⟨found, hscan, rfl⟩ := Option.map_eq_some_iff.mp h
      rw [List.cons_append, scan_of_readMarkup (readMarkup_append hread later), ih hscan,
        Option.map_map]
      congr 1
      funext more
      exact (List.append_assoc _ _ _).symm
  | case4 =>
      rename_i hplain ih
      rw [List.cons_append, scan, ih h]
      exact hplain

end Switchboard.Markup
