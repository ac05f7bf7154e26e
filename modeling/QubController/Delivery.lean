import Mathlib.Data.List.Basic

/-! # Messages in transit

A message is stamped with the time at which it is sent.  From an instant `t` on, at which the
messages `pending` are in transit, a receiver has read `reads` and `queue` is in transit now:
`Flow` says that all of these were pending or are newer, and, where messages do not overtake one
another, that they are the pending ones followed by newer ones.  `Flow.fresh` and `Flow.clear`
compare the first message of some kind that is read with the pending ones. -/

namespace Interaction

/-- A message and when it was sent. -/
structure Sent (α : Type) where
  msg : α
  sentAt : ℕ

/-- What was read since `t` and what is in transit; `fifo` says that messages keep their order. -/
structure Flow {α : Type} (fifo : Prop) (t : ℕ) (pending reads queue : List (Sent α)) : Prop where
  newer : ∀ f ∈ reads ++ queue, f ∈ pending ∨ t < f.sentAt
  ordered : fifo → ∃ new, reads ++ queue = pending ++ new ∧ ∀ f ∈ new, t < f.sentAt

section flow
variable {α : Type} {fifo : Prop} {t : ℕ} {pending reads queue before after new : List (Sent α)}
  {f : Sent α} {P : α → Prop}

theorem Flow.start : Flow fifo t pending [] pending where
  newer := fun _ hf => .inl hf
  ordered := fun _ => ⟨[], by simp, by simp⟩

/-- More messages are sent. -/
theorem Flow.send (h : Flow fifo t pending reads queue) (hnew : ∀ f ∈ new, t < f.sentAt) :
    Flow fifo t pending reads (queue ++ new) where
  newer := fun f hf => by
    rw [← List.append_assoc] at hf
    rcases List.mem_append.mp hf with hf | hf
    · exact h.newer f hf
    · exact .inr (hnew f hf)
  ordered := fun hfifo => by
    obtain ⟨sent, heq, hsent⟩ := h.ordered hfifo
    refine ⟨sent ++ new, by rw [← List.append_assoc, heq, List.append_assoc], ?_⟩
    intro f hf
    rcases List.mem_append.mp hf with hf | hf
    · exact hsent f hf
    · exact hnew f hf

/-- A message is read, the oldest one if messages keep their order. -/
theorem Flow.read (h : Flow fifo t pending reads (before ++ f :: after))
    (hfirst : fifo → before = []) : Flow fifo t pending (reads ++ [f]) (before ++ after) where
  newer := fun g hg => by
    apply h.newer
    simp only [List.mem_append, List.mem_cons] at hg ⊢
    tauto
  ordered := fun hfifo => by
    obtain ⟨sent, heq, hsent⟩ := h.ordered hfifo
    rw [hfirst hfifo] at heq ⊢
    exact ⟨sent, by simpa using heq, hsent⟩

/-- The last messages that were read are counted as in transit. -/
theorem Flow.unread (h : Flow fifo t pending (reads ++ after) queue) :
    Flow fifo t pending reads (after ++ queue) where
  newer := by
    rw [← List.append_assoc]
    exact h.newer
  ordered := by
    rw [← List.append_assoc]
    exact h.ordered

/-- If no pending message is a `P`, the `P` that is read is newer. -/
theorem Flow.fresh (h : Flow fifo t pending (reads ++ [f]) queue) (hf : P f.msg)
    (hclear : ∀ g ∈ pending, ¬ P g.msg) : t < f.sentAt := by
  refine (h.newer f (by simp)).resolve_left ?_
  intro hpending
  exact hclear f hpending hf

/-- If messages keep their order and the first `P` that is read is newer, no pending one is a
`P`. -/
theorem Flow.clear (h : Flow fifo t pending (reads ++ [f]) queue) (hfifo : fifo)
    (hf : t < f.sentAt) (hpending : ∀ g ∈ pending, g.sentAt ≤ t)
    (hreads : ∀ g ∈ reads, ¬ P g.msg) : ∀ g ∈ pending, ¬ P g.msg := by
  obtain ⟨new, heq, -⟩ := h.ordered hfifo
  have hsub : ∀ g ∈ pending, g ∈ reads := by
    rw [List.append_assoc, List.append_eq_append_iff] at heq
    rcases heq with ⟨as, hpre, htail⟩ | ⟨cs, hpre, -⟩
    · cases as with
      | nil => simp [hpre]
      | cons g as =>
          obtain ⟨rfl, -⟩ := List.cons.inj htail
          have hle := hpending f (by simp [hpre])
          omega
    · intro g hg
      rw [hpre]
      exact List.mem_append_left cs hg
  exact fun g hg => hreads g (hsub g hg)

end flow

end Interaction
