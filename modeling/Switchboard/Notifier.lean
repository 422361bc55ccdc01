/-!
# Listeners

Listeners are registered under numbers of 64 bits, which are given in turn and
start over when they are used up. A delivery calls the listeners that are
registered when it starts, in the order in which they were registered; what the
calls change shows only in later deliveries.
-/

namespace Switchboard

structure Notifier (α : Type) where
  /-- Numbers and listeners, oldest registration first. -/
  listeners : List (Nat × α) := []
  /-- Number of the next registration. -/
  next : Nat := 0

namespace Notifier

variable {α σ : Type}

/-- How many numbers there are. -/
def numbers : Nat :=
  Nat.pow 2 64

def register (n : Notifier α) (listener : α) : Nat × Notifier α :=
  (n.next,
    { listeners := n.listeners ++ [(n.next, listener)], next := (n.next + 1) % numbers })

/-- Some listener is registered under this number. -/
def isRegistered (n : Notifier α) (id : Nat) : Bool :=
  n.listeners.any fun entry => entry.1 = id

/-- Ends a registration; tells whether there was one. -/
def unregister (n : Notifier α) (id : Nat) : Bool × Notifier α :=
  (n.isRegistered id, { n with listeners := n.listeners.filter fun entry => entry.1 ≠ id })

def count (n : Notifier α) : Nat :=
  n.listeners.length

/-- Calls every listener once; a call takes the world as the calls before it
have left it. -/
def notify (n : Notifier α) (call : σ → Nat × α → σ) (world : σ) : σ :=
  n.listeners.foldl call world

/-! ## Listeners that register and unregister -/

/-- What a listener may do to the registrations while it is called. -/
inductive Edit (α : Type)
  | register (listener : α)
  | unregister (id : Nat)

def edit (n : Notifier α) : Edit α → Notifier α
  | .register listener => (n.register listener).2
  | .unregister id => (n.unregister id).2

end Notifier

end Switchboard
