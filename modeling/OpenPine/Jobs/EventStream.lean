import OpenPine.Foundation.Paging
import OpenPine.Jobs.EventTable

/-! # Resuming the event stream

A poller asks for the events after the last one it has received, while any writers
work on the file. What it has received is always an initial part of the event
table, and after a poll it is the whole table.
-/
namespace OpenPine.Jobs
open Runs List
variable {c : Contracts} {s : Store}

structure Poller where
  store : Store
  received : List Event

def Poller.start : Poller := ⟨.empty,[]⟩

def Poller.anchor (p : Poller) : String := (p.received.getLast?.map Event.eventId).getD ""

inductive PollOp
  | call (op : Op)
  | poll

def Poller.step (c : Contracts) (p : Poller) : PollOp → Poller
  | .call op => { p with store := Jobs.step c p.store op }
  | .poll => { p with received := p.received ++ events p.store p.anchor }

theorem events_unknown {after : String} (hne : after ≠ "") (h : ∀ e ∈ s.events.rows, e.eventId ≠ after) :
    events s after = [] ∧ needsResync s after = true := by
  have hnone : s.events.find? after = none := by
    cases hf : s.events.find? after with
    | none => rfl
    | some row => exact absurd (Table.key_of_find? hf) (h row (Table.mem_of_find? hf))
  simp [events, needsResync, hne, hnone]

theorem events_after (hs : EventsConsistent s) {front back : List EventRow} {row : EventRow}
    (hrows : s.events.rows = front ++ row :: back) : events s row.eventId = back.map EventRow.payload := by
  have hmem : row ∈ s.events.rows := by simp [hrows]
  have hsorted : (front ++ row :: back).Pairwise (fun r r' => r.seq < r'.seq) := by
    rw [← hrows]
    exact pairwise_map.mp hs.sequenced
  have hback : back.Pairwise (fun r r' => r.seq ≤ r'.seq) :=
    ((pairwise_cons.mp (pairwise_append.mp hsorted).2.1).2).imp Nat.le_of_lt
  unfold events
  rw [if_pos (hs.named row hmem), Table.find?_of_mem hmem]
  simp only [hrows]
  rw [Paging.filter_after hsorted, hback.insertionSort_eq]

structure Poller.Valid (c : Contracts) (p : Poller) : Prop where
  consistent : p.store.Consistent c
  received : p.received <+: p.store.events.rows.map EventRow.payload

namespace Poller.Valid
variable {p : Poller}

theorem anchor_cases (h : p.Valid c) : p.received = [] ∧ p.anchor = "" ∨
    ∃ front row back, p.store.events.rows = front ++ row :: back ∧
      p.received = (front ++ [row]).map EventRow.payload ∧ p.anchor = row.eventId := by
  obtain ⟨rest,hrest⟩ := h.received
  obtain ⟨rows,back,hrows,hrcv,-⟩ := map_eq_append_iff.mp hrest.symm
  cases hlast : rows.getLast? with
  | none =>
    have hnil := List.getLast?_eq_none_iff.mp hlast
    subst hnil
    have hempty : p.received = [] := hrcv.symm
    exact Or.inl ⟨hempty,by simp [Poller.anchor, hempty]⟩
  | some row =>
    obtain ⟨front,rfl⟩ := List.getLast?_eq_some_iff.mp hlast
    refine Or.inr ⟨front,row,back,by rw [hrows]; simp,hrcv.symm,?_⟩
    have hid := (h.consistent.events.described row (by rw [hrows]; simp)).1
    simp [Poller.anchor, ← hrcv, hid]

theorem poll_received (h : p.Valid c) : (p.step c .poll).received = p.store.events.rows.map EventRow.payload := by
  change p.received ++ events p.store p.anchor = _
  rcases h.anchor_cases with ⟨hnil,hanchor⟩ | ⟨front,row,back,hrows,hrcv,hanchor⟩
  · rw [hnil, hanchor, events_all h.consistent.events]
    rfl
  · rw [hanchor, events_after h.consistent.events hrows, hrcv, hrows]
    simp

theorem anchor_known (h : p.Valid c) : needsResync p.store p.anchor = false := by
  rcases h.anchor_cases with ⟨-,hanchor⟩ | ⟨front,row,back,hrows,-,hanchor⟩
  · simp [needsResync, hanchor]
  · have hmem : row ∈ p.store.events.rows := by simp [hrows]
    simp [needsResync, hanchor, Table.find?_of_mem hmem]

end Poller.Valid

/-- A poll continues where the last one has ended. -/
theorem Poller.step_valid (p : Poller) (op : PollOp) (h : p.Valid c) : (p.step c op).Valid c := by
  cases op with
  | call op =>
    have heff := step_effects h.consistent op
    exact ⟨heff.consistent h.consistent,h.received.trans (heff.rows_extend.map _)⟩
  | poll =>
    refine ⟨h.consistent,?_⟩
    rw [h.poll_received]
    exact prefix_rfl

/-- However the writers and the poller are interleaved, a poll makes the list of
received events the list of all events committed by then. -/
theorem event_stream_resumes (c : Contracts) (ops : List PollOp) :
    needsResync (run (Poller.step c) .start ops).store (run (Poller.step c) .start ops).anchor = false ∧
    (((run (Poller.step c) .start ops).step c .poll).received =
        (run (Poller.step c) .start ops).store.events.rows.map EventRow.payload ∧
      ((run (Poller.step c) .start ops).store.events.rows.map EventRow.seq).Pairwise (· < ·) ∧
      ∀ later, (run (Poller.step c) .start ops).store.events.rows <+:
        (run (Poller.step c) (run (Poller.step c) .start ops) later).store.events.rows) ∧
    ∀ after, after ≠ "" → (∀ e ∈ (run (Poller.step c) .start ops).store.events.rows, e.eventId ≠ after) →
      events (run (Poller.step c) .start ops).store after = [] ∧
      needsResync (run (Poller.step c) .start ops).store after = true := by
  have hstart : Poller.start.Valid c := ⟨consistent_empty c, nil_prefix⟩
  have hvalid : (run (Poller.step c) .start ops).Valid c := run_invariant Poller.step_valid hstart ops
  refine ⟨hvalid.anchor_known,⟨hvalid.poll_received,hvalid.consistent.events.sequenced,fun later => ?_⟩,
    fun after hne h => events_unknown hne h⟩
  refine run_rel (R := fun p q => p.store.events.rows <+: q.store.events.rows) (fun _ => prefix_rfl)
    (fun _ _ _ => List.IsPrefix.trans) Poller.step_valid (fun p op h => ?_) hvalid later
  cases op with
  | call op => exact (step_effects h.consistent op).rows_extend
  | poll => exact prefix_rfl

end OpenPine.Jobs
