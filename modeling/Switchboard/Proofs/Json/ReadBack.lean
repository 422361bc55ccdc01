import Switchboard.Json.Parser
import Switchboard.Proofs.Json.Token

/-!
# JSON values read back

A value is written as the texts of its tokens. Read again, its tokens lead from
where a value may come to where that value has been read, whatever containers
are open around it. So every value comes back, decimals and integers beyond 64
bits aside, that is not nested too deep.
-/

namespace Switchboard.Json

variable {j item : Json} {items done : List Json} {members : List (String × Json)} {k : Nat}
  {c : Char} {s rest : List Char} {t : Token} {ts : List Token} {opened : List Frame}

/-- A value of integers that fit and no other numbers, with at most this many
containers inside of each other. -/
inductive Plain : Nat → Json → Prop
  | null {k : Nat} : Plain k null
  | bool {k : Nat} (value : Bool) : Plain k (bool value)
  | integer {k : Nat} {value : Int} (hleast : -0x8000000000000000 ≤ value)
      (hmost : value < 0x10000000000000000) : Plain k (integer value)
  | text {k : Nat} (value : String) : Plain k (text value)
  | list {k : Nat} {items : List Json} (h : ∀ item ∈ items, Plain k item) :
      Plain (k + 1) (list items)
  | record {k : Nat} {members : List (String × Json)} (h : ∀ m ∈ members, Plain k m.2) :
      Plain (k + 1) (record members)

/-! ## Tokens of a value -/

mutual

def tokens : Json → List Token
  | null => [.null]
  | bool b => [.bool b]
  | integer n => [.integer n]
  | decimal m e => [.decimal m e]
  | text s => [.text s.toList]
  | list [] => [.mark .openList, .mark .closeList]
  | list (item :: rest) => .mark .openList :: (tokens item ++ tokensOfItems rest)
  | record [] => [.mark .openRecord, .mark .closeRecord]
  | record ((name, value) :: rest) =>
    .mark .openRecord :: .text name.toList :: .mark .colon :: (tokens value ++ tokensOfMembers rest)

/-- Tokens of the later items of a list and its end. -/
def tokensOfItems : List Json → List Token
  | [] => [.mark .closeList]
  | item :: rest => .mark .comma :: (tokens item ++ tokensOfItems rest)

/-- Tokens of the later members of a record and its end. -/
def tokensOfMembers : List (String × Json) → List Token
  | [] => [.mark .closeRecord]
  | (name, value) :: rest =>
    .mark .comma :: .text name.toList :: .mark .colon :: (tokens value ++ tokensOfMembers rest)

end

/-! ## Tokens written and read -/

/-- The text is read as these tokens before that rest. -/
def ReadAs (s : List Char) (ts : List Token) (rest : List Char) : Prop :=
  Token.readAll (s ++ rest) = (Token.readAll rest).map (ts ++ ·)

theorem ReadAs.append {s₁ s₂ : List Char} {ts₁ ts₂ : List Token} (h₁ : ReadAs s₁ ts₁ (s₂ ++ rest))
    (h₂ : ReadAs s₂ ts₂ rest) : ReadAs (s₁ ++ s₂) (ts₁ ++ ts₂) rest := by
  unfold ReadAs at h₁ h₂ ⊢
  rw [List.append_assoc, h₁, h₂, Option.map_map]
  simp [Function.comp_def]

/-- No token starts with a blank. -/
theorem ReadAs.token (h : Token.readOne (s ++ rest) = some (t, rest)) : ReadAs s [t] rest := by
  unfold ReadAs
  cases htext : s ++ rest with
  | nil =>
      rw [htext] at h
      cases h
  | cons c tail =>
      rw [htext] at h
      have hblank : ¬Token.isBlank c = true := by
        intro hc
        simp only [Token.isBlank, Bool.or_eq_true, decide_eq_true_eq] at hc
        rcases hc with ((rfl | rfl) | rfl) | rfl <;> cases h
      rw [Token.readAll, if_neg hblank]
      split
      · rename_i hnone
        rw [h] at hnone
        cases hnone
      · rename_i found after hsome
        rw [h] at hsome
        obtain ⟨rfl, rfl⟩ := Prod.mk.inj (Option.some.inj hsome)
        rfl

theorem ReadAs.text (s : String) (rest : List Char) :
    ReadAs (writeText s) [.text s.toList] rest := by
  apply ReadAs.token
  have hwritten : writeText s ++ rest = '"' :: (s.toList.flatMap writeChar ++ '"' :: rest) := by
    unfold writeText
    rw [List.append_assoc]
    rfl
  rw [hwritten, Token.readOne, readText_write]
  rfl

theorem ReadAs.name (s : String) (rest : List Char) :
    ReadAs (writeText s ++ [':']) [.text s.toList, .mark .colon] rest :=
  (ReadAs.text s _).append (ReadAs.token rfl)

theorem ends_of_mark (h : c = ',' ∨ c = ']' ∨ c = '}') (s : List Char) : Ends (c :: s) := by
  rintro d hd
  obtain rfl := Option.some.inj hd
  exact h

theorem ends_writeItems (items : List Json) (rest : List Char) :
    Ends (writeItems items ++ rest) := by
  cases items <;> exact ends_of_mark (by decide) _

theorem ends_writeMembers (members : List (String × Json)) (rest : List Char) :
    Ends (writeMembers members ++ rest) := by
  cases members <;> exact ends_of_mark (by decide) _

/-- The value is read as its tokens before all that may follow it. -/
def Readable (j : Json) : Prop :=
  ∀ rest, Ends rest → ReadAs j.write j.tokens rest

theorem Readable.thenItems (h : item.Readable)
    (hlater : ReadAs (writeItems items) (tokensOfItems items) rest) :
    ReadAs (item.write ++ writeItems items) (item.tokens ++ tokensOfItems items) rest :=
  (h _ (ends_writeItems items rest)).append hlater

theorem Readable.thenMembers {value : Json} (h : value.Readable) (name : String)
    (hlater : ReadAs (writeMembers members) (tokensOfMembers members) rest) :
    ReadAs (writeText name ++ ':' :: (value.write ++ writeMembers members))
      (.text name.toList :: .mark .colon :: (value.tokens ++ tokensOfMembers members)) rest := by
  have hvalue := (h _ (ends_writeMembers members rest)).append hlater
  have hread := (ReadAs.name name _).append hvalue
  rwa [List.append_assoc] at hread

theorem ReadAs.laterItems (h : ∀ item ∈ items, item.Readable) (rest : List Char) :
    ReadAs (writeItems items) (tokensOfItems items) rest := by
  induction items with
  | nil => exact ReadAs.token rfl
  | cons item items ih =>
      obtain ⟨hitem, hitems⟩ := List.forall_mem_cons.mp h
      have hcomma : ReadAs [','] [.mark .comma] (item.write ++ writeItems items ++ rest) :=
        ReadAs.token rfl
      exact hcomma.append (hitem.thenItems (ih hitems))

theorem ReadAs.laterMembers (h : ∀ m ∈ members, m.2.Readable) (rest : List Char) :
    ReadAs (writeMembers members) (tokensOfMembers members) rest := by
  induction members with
  | nil => exact ReadAs.token rfl
  | cons m members ih =>
      obtain ⟨name, value⟩ := m
      obtain ⟨hvalue, hmembers⟩ := List.forall_mem_cons.mp h
      have hcomma : ReadAs [','] [.mark .comma]
          (writeText name ++ ':' :: (value.write ++ writeMembers members) ++ rest) :=
        ReadAs.token rfl
      have hread := hcomma.append (hvalue.thenMembers name (ih hmembers))
      simpa [writeMembers, tokensOfMembers] using hread

/-- A plain value is read as its tokens. -/
theorem Plain.readable (h : Plain k j) : j.Readable := by
  intro rest hrest
  induction h generalizing rest with
  | null => exact ReadAs.token rfl
  | bool value => cases value <;> exact ReadAs.token rfl
  | integer hleast hmost => exact ReadAs.token (hrest.readOne_integer hleast hmost)
  | text value => exact ReadAs.text value rest
  | @list k items h ih =>
      cases items with
      | nil =>
          have hopen : ReadAs ['['] [.mark .openList] ([']'] ++ rest) := ReadAs.token rfl
          exact hopen.append (ReadAs.token rfl)
      | cons item items =>
          obtain ⟨hitem, hitems⟩ := List.forall_mem_cons.mp ih
          have hopen : ReadAs ['['] [.mark .openList] (item.write ++ writeItems items ++ rest) :=
            ReadAs.token rfl
          exact hopen.append (Readable.thenItems hitem (ReadAs.laterItems hitems rest))
  | @record k members h ih =>
      cases members with
      | nil =>
          have hopen : ReadAs ['{'] [.mark .openRecord] (['}'] ++ rest) := ReadAs.token rfl
          exact hopen.append (ReadAs.token rfl)
      | cons m members =>
          obtain ⟨name, value⟩ := m
          obtain ⟨hvalue, hmembers⟩ := List.forall_mem_cons.mp ih
          have hopen : ReadAs ['{'] [.mark .openRecord]
              (writeText name ++ ':' :: (value.write ++ writeMembers members) ++ rest) :=
            ReadAs.token rfl
          have hread :=
            hopen.append (Readable.thenMembers hvalue name (ReadAs.laterMembers hmembers rest))
          simpa [write, tokens] using hread

/-! ## Tokens of a value in the reader -/

/-- These tokens lead from where a value may come to where this one has come. -/
def Reader.Takes (ts : List Token) (j : Json) (opened : List Frame) : Prop :=
  ∀ rest, Reader.run ⟨opened, .value⟩ (ts ++ rest) = Reader.run ⟨opened, .separator j⟩ rest

theorem run_cons {r next : Reader} (h : r.step t = some next) (rest : List Token) :
    r.run (t :: rest) = next.run rest := by
  rw [Reader.run, h]
  rfl

/-- No value starts with an end, so the first item of a list is like the others. -/
theorem run_valueOrEnd (j : Json) (opened : List Frame) (rest : List Token) :
    Reader.run ⟨opened, .valueOrEnd⟩ (j.tokens ++ rest) =
      Reader.run ⟨opened, .value⟩ (j.tokens ++ rest) := by
  cases j with
  | list items => cases items <;> rfl
  | record members => cases members <;> rfl
  | _ => rfl

theorem run_laterItems {value : Json}
    (h : ∀ item ∈ items, ∀ done, Reader.Takes item.tokens item (.list done :: opened))
    (done : List Json) (rest : List Token) :
    Reader.run ⟨.list done :: opened, .separator value⟩ (tokensOfItems items ++ rest) =
      Reader.run ⟨opened, .separator (.list ((value :: done).reverse ++ items))⟩ rest := by
  induction items generalizing done value with
  | nil =>
      rw [List.append_nil]
      exact run_cons rfl rest
  | cons item items ih =>
      obtain ⟨hitem, hitems⟩ := List.forall_mem_cons.mp h
      rw [tokensOfItems, List.cons_append, List.append_assoc]
      calc Reader.run ⟨.list done :: opened, .separator value⟩
            (.mark .comma :: (item.tokens ++ (tokensOfItems items ++ rest)))
        _ = Reader.run ⟨.list (value :: done) :: opened, .value⟩
              (item.tokens ++ (tokensOfItems items ++ rest)) := run_cons rfl _
        _ = Reader.run ⟨.list (value :: done) :: opened, .separator item⟩
              (tokensOfItems items ++ rest) := hitem _ _
        _ = Reader.run
              ⟨opened, .separator (.list ((item :: value :: done).reverse ++ items))⟩ rest :=
              ih hitems _
        _ = _ := by simp

theorem run_name (frame : Frame) (name : String) (rest : List Token) :
    Reader.run ⟨frame :: opened, .name members⟩ (.text name.toList :: .mark .colon :: rest) =
      Reader.run ⟨.member members name :: opened, .value⟩ rest := by
  have hname : Reader.step ⟨frame :: opened, .name members⟩ (.text name.toList) =
      some ⟨.member members name :: opened, .colon⟩ :=
    congrArg (fun n => some (Reader.mk (.member members n :: opened) .colon)) String.ofList_toList
  rw [run_cons hname]
  exact run_cons rfl rest

theorem run_nameOrEnd (old name : String) (rest : List Token) :
    Reader.run ⟨.member members old :: opened, .nameOrEnd⟩
        (.text name.toList :: .mark .colon :: rest) =
      Reader.run ⟨.member members name :: opened, .value⟩ rest := by
  have hname : Reader.step ⟨.member members old :: opened, .nameOrEnd⟩ (.text name.toList) =
      some ⟨.member members name :: opened, .colon⟩ :=
    congrArg (fun n => some (Reader.mk (.member members n :: opened) .colon)) String.ofList_toList
  rw [run_cons hname]
  exact run_cons rfl rest

theorem run_laterMembers {name : String} {value : Json}
    (h : ∀ m ∈ members, ∀ done name, Reader.Takes m.2.tokens m.2 (.member done name :: opened))
    (done : List (String × Json)) (rest : List Token) :
    Reader.run ⟨.member done name :: opened, .separator value⟩ (tokensOfMembers members ++ rest) =
      Reader.run
        ⟨opened, .separator (.record (((name, value) :: done).reverse ++ members))⟩ rest := by
  induction members generalizing done name value with
  | nil =>
      rw [List.append_nil]
      exact run_cons rfl rest
  | cons m members ih =>
      obtain ⟨next, after⟩ := m
      obtain ⟨hvalue, hmembers⟩ := List.forall_mem_cons.mp h
      rw [tokensOfMembers, List.cons_append, List.cons_append, List.cons_append, List.append_assoc]
      calc Reader.run ⟨.member done name :: opened, .separator value⟩
            (.mark .comma :: .text next.toList :: .mark .colon ::
              (after.tokens ++ (tokensOfMembers members ++ rest)))
        _ = Reader.run ⟨.member done name :: opened, .name ((name, value) :: done)⟩
              (.text next.toList :: .mark .colon ::
                (after.tokens ++ (tokensOfMembers members ++ rest))) := run_cons rfl _
        _ = Reader.run ⟨.member ((name, value) :: done) next :: opened, .value⟩
              (after.tokens ++ (tokensOfMembers members ++ rest)) := run_name _ _ _
        _ = Reader.run ⟨.member ((name, value) :: done) next :: opened, .separator after⟩
              (tokensOfMembers members ++ rest) := hvalue _ _ _
        _ = Reader.run ⟨opened, .separator
              (.record (((next, after) :: (name, value) :: done).reverse ++ members))⟩ rest :=
              ih hmembers _
        _ = _ := by simp

/-- The tokens of a value lead to it as long as there is room for its containers. -/
theorem Plain.takes (h : Plain k j) (hdeep : opened.length + k ≤ maxOpen) :
    Reader.Takes j.tokens j opened := by
  induction h generalizing opened with
  | null | bool | integer =>
      intro rest
      exact run_cons rfl rest
  | text value =>
      intro rest
      have hvalue : Reader.step ⟨opened, .value⟩ (.text value.toList) =
          some ⟨opened, .separator (.text value)⟩ :=
        congrArg (fun s => some (Reader.mk opened (.separator (.text s)))) String.ofList_toList
      exact run_cons hvalue rest
  | @list k items h ih =>
      intro rest
      have hroom : opened.length < maxOpen := by omega
      have hopen : Reader.step ⟨opened, .value⟩ (.mark .openList) =
          some ⟨.list [] :: opened, .valueOrEnd⟩ := if_pos hroom
      have hinside : (Frame.list [] :: opened).length + k ≤ maxOpen := by
        rw [List.length_cons]
        omega
      cases items with
      | nil =>
          rw [tokens, List.cons_append, run_cons hopen]
          exact run_cons rfl rest
      | cons item items =>
          obtain ⟨hitem, hitems⟩ := List.forall_mem_cons.mp ih
          rw [tokens, List.cons_append, List.append_assoc, run_cons hopen, run_valueOrEnd,
            hitem hinside, run_laterItems]
          · rfl
          · intro item hmem done
            exact hitems item hmem hinside
  | @record k members h ih =>
      intro rest
      have hroom : opened.length < maxOpen := by omega
      have hopen : Reader.step ⟨opened, .value⟩ (.mark .openRecord) =
          some ⟨.member [] "" :: opened, .nameOrEnd⟩ := if_pos hroom
      have hinside : (Frame.member [] "" :: opened).length + k ≤ maxOpen := by
        rw [List.length_cons]
        omega
      cases members with
      | nil =>
          rw [tokens, List.cons_append, run_cons hopen]
          exact run_cons rfl rest
      | cons m members =>
          obtain ⟨name, value⟩ := m
          obtain ⟨hfirst, hmembers⟩ := List.forall_mem_cons.mp ih
          have hvalue : Reader.Takes value.tokens value (.member [] name :: opened) :=
            hfirst hinside
          rw [tokens, List.cons_append, List.cons_append, List.cons_append, List.append_assoc,
            run_cons hopen, run_nameOrEnd, hvalue, run_laterMembers]
          · rfl
          · intro m hmem done name
            exact hmembers m hmem hinside

/-! ## Whole texts -/

/-- **A rendered value is read back.** -/
theorem parse?_render (h : Plain maxOpen j) : parse? j.render = some j := by
  have htokens : Token.readAll j.write = some j.tokens := by
    have hread := h.readable [] nofun
    unfold ReadAs at hread
    rw [List.append_nil, Token.readAll, Option.map_some, List.append_nil] at hread
    exact hread
  have htakes : Reader.run {} j.tokens = some ⟨[], .separator j⟩ := by
    have hroom : ([] : List Frame).length + maxOpen ≤ maxOpen := Nat.le_of_eq (Nat.zero_add _)
    have hrun := h.takes hroom []
    rw [List.append_nil] at hrun
    exact hrun
  rw [parse?, render, String.toList_ofList, htokens, Option.bind_some, ofTokens?, htakes]
  rfl

end Switchboard.Json
