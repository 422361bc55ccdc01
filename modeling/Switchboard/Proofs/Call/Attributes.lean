import Mathlib.Data.List.DropRight
import Mathlib.Data.List.Induction
import Switchboard.Proofs.Call.Comparison

/-!
# Stores of attributes

The session and each stream have a store of attributes of their own. What is in a
store is what was added to it since it was last cleared, in that order: no change
of anything else has a say in it, and a stream has a store only while something is
in it. So clearing leaves nothing behind, and parameters do not show what was added
to them and cleared again.
-/

namespace Switchboard.Call

inductive Store
  | session
  | stream (stream : Stream)
  deriving DecidableEq

namespace Store

inductive Edit
  | add (a : Param)
  | clear

def Edit.added? : Edit → Option Param
  | add a => some a
  | clear => none

/-- What is left of a store that is cleared. -/
def emptied : Store → Option Attributes
  | session => some []
  | stream _ => none

/-- The store with these attributes in it. -/
def holding (store : Store) (as : Attributes) : Option Attributes :=
  if as = [] then store.emptied else some as

def edit (store : Store) (held? : Option Attributes) : Edit → Option Attributes
  | .add a => some (held?.getD [] ++ [a])
  | .clear => store.emptied

/-- What was added since the last clearing, in order. -/
def sinceCleared (edits : List Edit) : Attributes :=
  (edits.rtakeWhile fun e => e.added?.isSome).filterMap Edit.added?

variable {store : Store}

theorem getD_holding (store : Store) (as : Attributes) : (store.holding as).getD [] = as := by
  unfold holding
  split
  · rename_i has
    rw [has]
    cases store <;> rfl
  · rfl

theorem sinceCleared_add (edits : List Edit) (a : Param) :
    sinceCleared (edits ++ [.add a]) = sinceCleared edits ++ [a] := by
  unfold sinceCleared
  rw [List.rtakeWhile_concat_pos _ _ _ rfl, List.filterMap_append]
  rfl

theorem sinceCleared_clear (edits : List Edit) : sinceCleared (edits ++ [.clear]) = [] := by
  unfold sinceCleared
  rw [List.rtakeWhile_concat_neg _ _ _ Bool.false_ne_true]
  rfl

/-- A store that was empty at first holds what was added since the last clearing. -/
theorem foldl_edit (store : Store) (edits : List Edit) :
    edits.foldl store.edit store.emptied = store.holding (sinceCleared edits) := by
  induction edits using List.reverseRecOn with
  | nil => rfl
  | append_singleton edits last ih =>
      rw [List.foldl_append, List.foldl_cons, List.foldl_nil, ih]
      cases last with
      | add a =>
          rw [edit, getD_holding, sinceCleared_add]
          exact (if_neg (List.append_ne_nil_of_right_ne_nil _ (List.cons_ne_nil a []))).symm
      | clear =>
          rw [edit, sinceCleared_clear]
          rfl

end Store

namespace StreamAttributes

theorem store?_setStore (s : StreamAttributes) (stream other : Stream)
    (store? : Option Attributes) :
    (s.setStore stream store?).store? other =
      if other = stream then store? else s.store? other := by
  split
  · rename_i h
    rw [h, store?_setStore_self]
  · rename_i h
    rw [store?_setStore_of_ne s store? h]

theorem ext_store? {s t : StreamAttributes}
    (h : ∀ stream, s.store? stream = t.store? stream) : s = t := by
  cases s
  cases t
  congr
  exacts [h .audio, h .video, h .text]

end StreamAttributes

/-! ## Changes -/

/-- What the change does to the store. -/
def Change.edit? (c : Change) (store : Store) : Option Store.Edit :=
  match c with
  | .set (.addAttribute name value?) =>
    if store = .session then some (.add ⟨name, value?⟩) else none
  | .set .clearAttributes => if store = .session then some .clear else none
  | .set (.addStreamAttribute stream name value?) =>
    if store = .stream stream then some (.add ⟨name, value?⟩) else none
  | .set (.clearStreamAttributes stream) => if store = .stream stream then some .clear else none
  | _ => none

/-- The change is one of attributes, in whatever store. -/
def Change.ofAttributes : Change → Bool
  | .set (.addAttribute _ _) => true
  | .set .clearAttributes => true
  | .set (.addStreamAttribute _ _ _) => true
  | .set (.clearStreamAttributes _) => true
  | _ => false

/-- What these changes do to the store. -/
def Store.edits (store : Store) (changes : List Change) : List Store.Edit :=
  changes.filterMap (·.edit? store)

namespace Parameters

def store? (p : Parameters) : Store → Option Attributes
  | .session => some p.attributes
  | .stream stream => p.streamAttributes.store? stream

/-- Value of the attribute of that name in that store. -/
def attribute? (p : Parameters) : Store → String → Option (Option String)
  | .session, name => p.attributes.get? name
  | .stream stream, name => p.streamAttributes.get? stream name

variable {p q : Parameters} {store : Store} {changes changes' : List Change}

theorem attribute?_eq (p : Parameters) (store : Store) (name : String) :
    p.attribute? store name = (p.store? store).bind (·.get? name) := by
  cases store <;> rfl

/-- Every store is empty at first. -/
theorem store?_origin (origin : Origin) (store : Store) :
    origin.parameters.store? store = store.emptied := by
  cases origin <;> rcases store with _ | (_ | _ | _) <;> rfl

/-- A store changes by what is done to it, and by nothing else. -/
theorem store?_change (p : Parameters) (c : Change) (store : Store) :
    (p.change c).store? store =
      (c.edit? store).elim (p.store? store) (store.edit (p.store? store)) := by
  cases c with
  | set setting =>
      cases setting with
      | addAttribute name value? => cases store <;> rfl
      | clearAttributes => cases store <;> rfl
      | addStreamAttribute stream name value? =>
          cases store with
          | session => rfl
          | stream other =>
              show (p.streamAttributes.add stream name value?).store? other = _
              rw [StreamAttributes.add, StreamAttributes.store?_setStore, Change.edit?]
              by_cases h : other = stream
              · simp [h, Store.edit, store?, Attributes.add]
              · simp [h, store?]
      | clearStreamAttributes stream =>
          cases store with
          | session => rfl
          | stream other =>
              show (p.streamAttributes.clear stream).store? other = _
              rw [StreamAttributes.clear, StreamAttributes.store?_setStore, Change.edit?]
              by_cases h : other = stream
              · simp [h, Store.edit, Store.emptied]
              · simp [h, store?]
      | _ => cases store <;> rfl
  | adapt edge pingMs =>
      have hstores : (p.adapt edge pingMs).store? store = p.store? store := by
        unfold adapt
        split <;> cases store <;> rfl
      exact hstores
  | commit agreement => cases store <;> rfl
  | copy => cases store <;> rfl

theorem store?_changeAll (p : Parameters) (changes : List Change) (store : Store) :
    (p.changeAll changes).store? store =
      (store.edits changes).foldl store.edit (p.store? store) := by
  induction changes generalizing p with
  | nil => rfl
  | cons c changes ih =>
      rw [changeAll_cons, ih, store?_change, Store.edits, Store.edits, List.filterMap_cons]
      cases c.edit? store <;> rfl

/-- After any history a store holds what was added to it since it was last cleared. -/
theorem store?_history (origin : Origin) (changes : List Change) (store : Store) :
    (origin.parameters.changeAll changes).store? store =
      store.holding (Store.sinceCleared (store.edits changes)) := by
  rw [store?_changeAll, store?_origin, Store.foldl_edit]

/-! ## What is no attribute -/

def withoutAttributes (p : Parameters) : Parameters :=
  { p with attributes := [], streamAttributes := {} }

/-- Parameters are told by their stores and by what is no attribute. -/
theorem eq_of_withoutAttributes (h : p.withoutAttributes = q.withoutAttributes)
    (hstores : ∀ store, p.store? store = q.store? store) : p = q := by
  have hsession : p.attributes = q.attributes := Option.some.inj (hstores .session)
  have hstreams : p.streamAttributes = q.streamAttributes :=
    StreamAttributes.ext_store? fun stream => hstores (.stream stream)
  calc p = { p.withoutAttributes with
             attributes := p.attributes, streamAttributes := p.streamAttributes } := rfl
    _ = { q.withoutAttributes with
          attributes := q.attributes, streamAttributes := q.streamAttributes } := by
        rw [h, hsession, hstreams]
    _ = q := rfl

/-- Other changes do not read attributes, and changes of attributes nothing else. -/
theorem withoutAttributes_change (p : Parameters) (c : Change) :
    (p.change c).withoutAttributes =
      if c.ofAttributes then p.withoutAttributes else p.withoutAttributes.change c := by
  cases c with
  | set setting => cases setting <;> rfl
  | adapt edge pingMs =>
      have hlow : p.withoutAttributes.network.lowBandwidth = p.network.lowBandwidth := rfl
      show (p.adapt edge pingMs).withoutAttributes = p.withoutAttributes.adapt edge pingMs
      unfold adapt
      rw [hlow]
      split <;> rfl
  | commit agreement => rfl
  | copy => rfl

theorem withoutAttributes_changeAll (p : Parameters) (changes : List Change) :
    (p.changeAll changes).withoutAttributes =
      p.withoutAttributes.changeAll (changes.filter (!·.ofAttributes)) := by
  induction changes generalizing p with
  | nil => rfl
  | cons c changes ih =>
      rw [changeAll_cons, ih, withoutAttributes_change, List.filter_cons]
      cases c.ofAttributes <;> rfl

theorem changeAll_congr (origin : Origin)
    (hrest : changes'.filter (!·.ofAttributes) = changes.filter (!·.ofAttributes))
    (hadded : ∀ store : Store,
      Store.sinceCleared (store.edits changes') = Store.sinceCleared (store.edits changes)) :
    origin.parameters.changeAll changes' = origin.parameters.changeAll changes := by
  apply eq_of_withoutAttributes
  · rw [withoutAttributes_changeAll, withoutAttributes_changeAll, hrest]
  · intro store
    rw [store?_history, store?_history, hadded]

/-- **Stores since they were cleared.** After any history a store holds what was
added to it since it was last cleared, in that order, and what is found under a
name is the value of the earliest of these with exactly this name. It depends on
what was done to that store and on nothing else, and a stream has one exactly if
something was added to it since. Two histories that differ only in attributes, and
not in those added to some store since it was last cleared, lead to equal parameters,
which also compare equal exactly if their frame rates are numbers. -/
theorem stores_since_cleared (origin : Origin) (changes : List Change) :
    let p := origin.parameters.changeAll changes
    (∀ store, p.store? store = store.holding (Store.sinceCleared (store.edits changes))) ∧
    (∀ store name, p.attribute? store name =
      ((Store.sinceCleared (store.edits changes)).find? fun a => a.name = name).map (·.value?)) ∧
    (∀ (store : Store) (origin' : Origin) (changes' : List Change),
      store.edits changes' = store.edits changes →
      (origin'.parameters.changeAll changes').store? store = p.store? store) ∧
    (∀ stream, (p.streamAttributes.store? stream).isSome = true ↔
      Store.sinceCleared ((Store.stream stream).edits changes) ≠ []) ∧
    ∀ changes' : List Change,
      changes'.filter (!·.ofAttributes) = changes.filter (!·.ofAttributes) →
      (∀ store : Store,
        Store.sinceCleared (store.edits changes') = Store.sinceCleared (store.edits changes)) →
      origin.parameters.changeAll changes' = p ∧
        ((origin.parameters.changeAll changes').same p = true ↔ p.HasRates) := by
  intro p
  have hstore : ∀ store, p.store? store = _ := store?_history origin changes
  refine ⟨hstore, ?_, ?_, ?_, ?_⟩
  · intro store name
    rw [attribute?_eq, hstore, Store.holding]
    split
    · rename_i hnone
      rw [hnone]
      cases store <;> rfl
    · rfl
  · intro store origin' changes' hedits
    rw [hstore, store?_history, hedits]
  · intro stream
    have hstream : p.streamAttributes.store? stream = _ := hstore (.stream stream)
    rw [hstream, Store.holding]
    split
    · rename_i hnone
      exact iff_of_false Bool.false_ne_true (not_not_intro hnone)
    · rename_i hsome
      exact iff_of_true rfl hsome
  · intro changes' hrest hadded
    rw [changeAll_congr origin hrest hadded]
    exact ⟨rfl, (Alike.refl p).same_iff⟩

end Parameters

end Switchboard.Call
