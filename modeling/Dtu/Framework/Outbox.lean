import Mathlib.Data.List.Basic

/-!
# Queues and what has left them

An outbox has a queue of items for each of several sources. What is put into a queue
leaves it in shipments, each of them the front of every queue and of some kind
(`Outbox.ship`). The outbox keeps the shipments, so that no item can get lost in it or
leave it twice: the items put in so far are those shipped, in their order, and those
pending (`Outbox.items`).
-/

namespace Dtu

/-- A shipment: its kind, and what it takes of each queue. -/
structure Shipment (ι α κ : Type) where
  kind : κ
  taken : ι → List α

structure Outbox (ι α κ : Type) where
  shipments : List (Shipment ι α κ)
  pending : ι → List α

namespace Outbox

variable {ι α κ : Type}

def empty : Outbox ι α κ := ⟨[], fun _ => []⟩

/-- All items put into a queue. -/
def items (o : Outbox ι α κ) (i : ι) : List α := o.shipments.flatMap (·.taken i) ++ o.pending i

def put (o : Outbox ι α κ) (added : ι → List α) : Outbox ι α κ :=
  { o with pending := fun i => o.pending i ++ added i }

/-- The first `count i` items of each queue. -/
def front (o : Outbox ι α κ) (count : ι → Nat) (i : ι) : List α := (o.pending i).take (count i)

/-- They leave in a shipment. -/
def ship (o : Outbox ι α κ) (kind : κ) (count : ι → Nat) : Outbox ι α κ where
  shipments := o.shipments ++ [⟨kind, o.front count⟩]
  pending i := (o.pending i).drop (count i)

variable (o : Outbox ι α κ) (i : ι)

@[simp] theorem items_empty : (empty : Outbox ι α κ).items i = [] := rfl

@[simp] theorem pending_put (added : ι → List α) : (o.put added).pending i = o.pending i ++ added i := rfl

@[simp] theorem pending_ship (kind : κ) (count : ι → Nat) :
    (o.ship kind count).pending i = (o.pending i).drop (count i) := rfl

@[simp] theorem shipments_put (added : ι → List α) : (o.put added).shipments = o.shipments := rfl

@[simp] theorem shipments_ship (kind : κ) (count : ι → Nat) :
    (o.ship kind count).shipments = o.shipments ++ [⟨kind, o.front count⟩] := rfl

@[simp] theorem items_put (added : ι → List α) : (o.put added).items i = o.items i ++ added i := by
  rw [items, items, pending_put, shipments_put, List.append_assoc]

@[simp] theorem items_ship (kind : κ) (count : ι → Nat) : (o.ship kind count).items i = o.items i := by
  rw [items, items, shipments_ship, List.flatMap_append, List.flatMap_singleton, pending_ship, List.append_assoc]
  exact congrArg _ (List.take_append_drop (count i) (o.pending i))

end Outbox

end Dtu
