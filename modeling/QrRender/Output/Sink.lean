import QrRender.Error

/-!
# Sinks

A sink takes bytes and may refuse. Offered some bytes it takes a first part of them, or fails;
asked to flush it does, or fails. It has a state of its own, which its answers may depend on in any
way. An offer that is only interrupted is made again, and counts as one with its final answer.

`deliver` offers a list of bytes until all are taken, and then flushes. A sink that takes nothing
of what it is offered would never get further, and counts as failing. The result says what the sink
took, whether it was flushed, and what went wrong.
-/

namespace QrRender

/-- A receiver of bytes. -/
structure Sink (σ : Type) where
  /-- How many of the bytes offered are taken, at most all of them. -/
  write : σ → List UInt8 → Except String Nat × σ
  flush : σ → Except String Unit × σ

/-- What became of some bytes that were offered to a sink. -/
structure Delivery (σ : Type) where
  state : σ
  received : List UInt8
  /-- The sink was asked to flush and did. -/
  flushed : Bool
  failure : Option String

namespace Sink

variable {σ : Type}

/-- The failure of a sink that takes nothing. -/
def stalled : String := "failed to write whole buffer"

/-- Bytes offered until all are taken or the sink fails. -/
def writeAll (sink : Sink σ) (state : σ) : List UInt8 → Delivery σ
  | [] => ⟨state, [], false, none⟩
  | b :: bytes =>
    match sink.write state (b :: bytes) with
    | (.error cause, state) => ⟨state, [], false, some cause⟩
    | (.ok 0, state) => ⟨state, [], false, some stalled⟩
    | (.ok (n + 1), state) =>
      let rest := writeAll sink state (bytes.drop n)
      { rest with received := b :: bytes.take n ++ rest.received }
termination_by bytes => bytes.length
decreasing_by
  simp only [List.length_drop, List.length_cons]
  omega

/-- The sink has a first part of the bytes, and all of them if nothing failed. -/
theorem received_writeAll (sink : Sink σ) (state : σ) (bytes : List UInt8) :
    (sink.writeAll state bytes).received <+: bytes ∧
      ((sink.writeAll state bytes).failure = none →
        (sink.writeAll state bytes).received = bytes) := by
  fun_induction writeAll sink state bytes with
  | case1 => simp
  | case2 => simp
  | case3 => simp
  | case4 _ b bytes n _ _ rest ih =>
    obtain ⟨hpre, hall⟩ := ih
    have hsplit : b :: bytes = b :: bytes.take n ++ bytes.drop n := by simp
    constructor
    · rw [hsplit]
      exact (List.prefix_append_right_inj _).mpr hpre
    · intro hnone
      have hrest : rest.received = bytes.drop n := hall hnone
      simp [hrest]

/-- Bytes offered until all are taken, and then a flush. -/
def deliver (sink : Sink σ) (state : σ) (bytes : List UInt8) : Delivery σ :=
  let d := sink.writeAll state bytes
  match d.failure with
  | some _ => d
  | none =>
    match sink.flush d.state with
    | (.ok _, state) => { d with state := state, flushed := true }
    | (.error cause, state) => { d with state := state, failure := some cause }

end Sink

end QrRender
