import Mathlib.Data.List.Nodup
import Mathlib.Logic.Function.Basic

/-!
# Bounded channels

A bounded channel is the queue of what was sent and not yet received. A send that does not wait
fails when the queue is full or the receiver is gone. `send_all_apply`: one item sent to some of a
family of channels; `send_each_queue`: how much of a list of items fits into one.
-/

namespace Crabscale.Interaction

structure Channel (β : Type) where
  queue : List β := []
  closed : Bool := false
  deriving DecidableEq

variable {β ι : Type}

namespace Channel

/-- A send succeeds. -/
def HasRoom (capacity : Nat) (channel : Channel β) : Prop :=
  channel.closed = false ∧ channel.queue.length < capacity

instance (capacity : Nat) (channel : Channel β) : Decidable (channel.HasRoom capacity) :=
  inferInstanceAs (Decidable (_ ∧ _))

def trySend (capacity : Nat) (channel : Channel β) (item : β) : Channel β × Bool :=
  if channel.HasRoom capacity then ({ channel with queue := channel.queue ++ [item] }, true)
  else (channel, false)

variable {capacity : Nat} {channel : Channel β} {item : β}

theorem try_send_room (h : channel.HasRoom capacity) :
    (channel.trySend capacity item).1 = { channel with queue := channel.queue ++ [item] } := by
  rw [trySend, if_pos h]

theorem try_send_full (h : ¬channel.HasRoom capacity) :
    (channel.trySend capacity item).1 = channel := by
  rw [trySend, if_neg h]

@[simp] theorem try_send_closed : (channel.trySend capacity item).1.closed = channel.closed := by
  unfold trySend
  split <;> rfl

def placed (before after : Channel β) : List β := after.queue.drop before.queue.length

@[simp] theorem placed_self : channel.placed channel = [] := List.drop_length

theorem mem_queue_of_mem_placed {before after : Channel β} (h : item ∈ before.placed after) :
    item ∈ after.queue :=
  List.mem_of_mem_drop h

theorem mem_placed_try_send {other : β}
    (h : other ∈ channel.placed (channel.trySend capacity item).1) : other = item := by
  by_cases hroom : channel.HasRoom capacity
  · rw [try_send_room hroom, placed, List.drop_left] at h
    exact List.mem_singleton.mp h
  · rw [try_send_full hroom, placed_self] at h
    cases h

def sendEach (capacity : Nat) (items : List β) (channel : Channel β) : Channel β :=
  items.foldl (fun channel item => (channel.trySend capacity item).1) channel

@[simp] theorem send_each_closed (items : List β) :
    (channel.sendEach capacity items).closed = channel.closed := by
  unfold sendEach
  induction items generalizing channel with
  | nil => rfl
  | cons item items ih => rw [List.foldl_cons, ih, try_send_closed]

theorem send_each_queue (hopen : channel.closed = false) (items : List β) :
    (channel.sendEach capacity items).queue =
      channel.queue ++ items.take (capacity - channel.queue.length) := by
  unfold sendEach
  induction items generalizing channel with
  | nil => simp
  | cons item items ih =>
    rw [List.foldl_cons, ih (by rw [try_send_closed, hopen])]
    by_cases hroom : channel.HasRoom capacity
    · have hmore : capacity - channel.queue.length =
          capacity - (channel.queue.length + 1) + 1 := by
        have := hroom.2
        omega
      rw [try_send_room hroom, List.length_append, List.length_singleton, hmore,
        List.take_succ_cons, List.append_assoc, List.singleton_append]
    · have hfull : capacity - channel.queue.length = 0 := by
        have : ¬channel.queue.length < capacity := fun hlt => hroom ⟨hopen, hlt⟩
        omega
      rw [try_send_full hroom, hfull, List.take_zero, List.take_zero]

end Channel

section Family

variable [DecidableEq ι] {capacity : Nat} {item : β}

def sendAll (capacity : Nat) (item : β) (targets : List ι) (channels : ι → Channel β) :
    (ι → Channel β) × Bool :=
  targets.foldl (fun (channels, delivered) target =>
    let (channel, sent) := (channels target).trySend capacity item
    (Function.update channels target channel, delivered || sent)) (channels, false)

theorem send_all_apply {targets : List ι} (hnodup : targets.Nodup) (channels : ι → Channel β)
    (name : ι) :
    (sendAll capacity item targets channels).1 name =
      if name ∈ targets then ((channels name).trySend capacity item).1 else channels name := by
  have hfold (acc : (ι → Channel β) × Bool) :
      (targets.foldl (fun (channels, delivered) target =>
        let (channel, sent) := (channels target).trySend capacity item
        (Function.update channels target channel, delivered || sent)) acc).1 name =
        if name ∈ targets then ((acc.1 name).trySend capacity item).1 else acc.1 name := by
    induction targets generalizing acc with
    | nil => rfl
    | cons target targets ih =>
      obtain ⟨hnew, hnodup⟩ := List.nodup_cons.mp hnodup
      rw [List.foldl_cons, ih hnodup]
      by_cases hname : name = target
      · subst hname
        rw [if_neg hnew, if_pos List.mem_cons_self]
        exact Function.update_self ..
      · have hsame : Function.update acc.1 target
            ((acc.1 target).trySend capacity item).1 name = acc.1 name :=
          Function.update_of_ne hname ..
        simp only [hsame, List.mem_cons, hname, false_or]
  exact hfold _

end Family

end Crabscale.Interaction

/-! ## Broadcast channels

A broadcast channel keeps the list of everything that was sent, and a receiver is a position in it.
A receiver that has fallen behind by more than the capacity is told so and skips to the oldest item
still kept. -/

namespace Crabscale.Interaction.Broadcast

variable {β : Type}

/-- The outcome of reading from a channel. -/
inductive Received (β : Type) where
  | value (item : β)
  | lagged (missed : Nat)
  deriving DecidableEq

/-- Read the next item: what was received and the position after it, or nothing when everything was
read. -/
def receive (capacity : Nat) (sent : List β) (position : Nat) : Option (Received β × Nat) :=
  match sent[position]? with
  | none => none
  | some item =>
    let oldest := sent.length - capacity
    if position < oldest then some (.lagged (oldest - position), oldest)
    else some (.value item, position + 1)

/-- Some item with a property is still to be read. -/
def Unread (sent : List β) (position : Nat) (P : β → Prop) : Prop :=
  ∃ item ∈ sent.drop position, P item

variable {P : β → Prop} {sent more : List β} {position next : Nat} {item : β} {capacity : Nat}

theorem Unread.append (h : Unread sent position P) (more : List β) :
    Unread (sent ++ more) position P := by
  obtain ⟨item, hmem, hitem⟩ := h
  rw [Unread, List.drop_append]
  exact ⟨item, List.mem_append_left _ hmem, hitem⟩

theorem unread_sent (hposition : position ≤ sent.length) (hmem : item ∈ more) (hitem : P item) :
    Unread (sent ++ more) position P := by
  rw [Unread, List.drop_append_of_le_length hposition]
  exact ⟨item, List.mem_append_right _ hmem, hitem⟩

theorem not_unread_of_length_le (h : sent.length ≤ position) : ¬Unread sent position P := by
  rintro ⟨item, hmem, -⟩
  rw [List.drop_eq_nil_of_le h] at hmem
  cases hmem

theorem receive_value (h : receive capacity sent position = some (.value item, next)) :
    sent[position]? = some item ∧ next = position + 1 := by
  unfold receive at h
  cases hitem : sent[position]? with
  | none => simp [hitem] at h
  | some found =>
    simp only [hitem] at h
    split at h <;> cases h
    exact ⟨rfl, rfl⟩

theorem position_le_of_receive_value
    (h : receive capacity sent position = some (.value item, next)) : next ≤ sent.length := by
  obtain ⟨hitem, rfl⟩ := receive_value h
  exact (List.getElem?_eq_some_iff.mp hitem).1

theorem Unread.receive (h : Unread sent position P)
    (hreceive : receive capacity sent position = some (.value item, next)) :
    P item ∨ Unread sent next P := by
  obtain ⟨hitem, rfl⟩ := receive_value hreceive
  obtain ⟨other, hmem, hother⟩ := h
  obtain ⟨hlt, rfl⟩ := List.getElem?_eq_some_iff.mp hitem
  rw [List.drop_eq_getElem_cons hlt, List.mem_cons] at hmem
  obtain rfl | hmem := hmem
  · exact .inl hother
  · exact .inr ⟨other, hmem, hother⟩

theorem receive_ne_lagged {missed : Nat} (h : sent.length ≤ position + capacity) :
    receive capacity sent position ≠ some (.lagged missed, next) := by
  unfold receive
  cases sent[position]? with
  | none => simp
  | some item =>
    dsimp only
    rw [if_neg (by omega)]
    simp

end Crabscale.Interaction.Broadcast
