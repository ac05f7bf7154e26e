import Mathlib.Data.List.Basic

/-! # Messages with addressees

A system of components in which a message reaches the components at its address only.  What a
component becomes then depends on the messages to its own address in their order
(`deliverAll_apply`), and orders that agree on each component's messages lead to the same system
(`deliverAll_congr`). -/

namespace Addressed

variable {ι κ σ μ : Type} [DecidableEq κ]

section deliver
variable (addr : ι → κ) (dest : μ → κ) (step : μ → σ → σ)

/-- The components at the address of `x` take its step. -/
def deliver (x : μ) (s : ι → σ) : ι → σ := fun i => if dest x = addr i then step x (s i) else s i

/-- One message after the other. -/
def deliverAll (xs : List μ) (s : ι → σ) : ι → σ :=
  xs.foldl (fun s x => deliver addr dest step x s) s

/-- The messages to the address `k`. -/
def stream (k : κ) (xs : List μ) : List μ := xs.filter fun x => dest x = k

end deliver

variable {addr : ι → κ} {dest : μ → κ} {step : μ → σ → σ} {s : ι → σ} {x : μ} {xs ys : List μ}

theorem deliverAll_append :
    deliverAll addr dest step (xs ++ ys) s =
      deliverAll addr dest step ys (deliverAll addr dest step xs s) := List.foldl_append

theorem stream_stream (k : κ) : stream dest k (stream dest k xs) = stream dest k xs := by
  simp [stream]

/-- A component sees its own messages. -/
theorem deliverAll_apply (xs : List μ) (s : ι → σ) (i : ι) :
    deliverAll addr dest step xs s i =
      (stream dest (addr i) xs).foldl (fun a x => step x a) (s i) := by
  induction xs generalizing s with
  | nil => rfl
  | cons x xs ih =>
      have hcons : deliverAll addr dest step (x :: xs) s =
          deliverAll addr dest step xs (deliver addr dest step x s) := rfl
      rw [hcons, ih]
      by_cases hx : dest x = addr i
      · simp [stream, deliver, hx]
      · simp [stream, deliver, hx]

/-- The order of messages to different components does not matter. -/
theorem deliverAll_congr (h : ∀ i, stream dest (addr i) xs = stream dest (addr i) ys) :
    deliverAll addr dest step xs s = deliverAll addr dest step ys s := by
  funext i
  rw [deliverAll_apply, deliverAll_apply, h i]

/-- Nothing but a component's own messages is needed to know it. -/
theorem deliverAll_stream (xs : List μ) (s : ι → σ) (i : ι) :
    deliverAll addr dest step (stream dest (addr i) xs) s i =
      deliverAll addr dest step xs s i := by
  rw [deliverAll_apply, deliverAll_apply, stream_stream]

/-- A counter that the steps of some messages raise, in the states `I`, counts them. -/
theorem count_foldl (step : μ → σ → σ) (count : σ → UInt64) (p : μ → Bool) (I : σ → Prop)
    (h : ∀ x ∈ xs, ∀ a, I a → I (step x a) ∧
      count (step x a) = if p x then count a + 1 else count a) {a : σ} (ha : I a) :
    count (xs.foldl (fun a x => step x a) a) = count a + UInt64.ofNat (xs.countP p) := by
  induction xs generalizing a with
  | nil => simp
  | cons x xs ih =>
      obtain ⟨hI, hcount⟩ := h x List.mem_cons_self a ha
      rw [List.foldl_cons, ih (fun y hy => h y (List.mem_cons_of_mem x hy)) hI, hcount,
        List.countP_cons]
      by_cases hx : p x = true
      · simp only [hx, if_true, UInt64.ofNat_add]
        rw [UInt64.add_assoc, UInt64.add_comm 1]
        rfl
      · simp [hx]

end Addressed
