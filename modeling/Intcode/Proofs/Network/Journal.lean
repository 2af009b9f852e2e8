import Intcode.Proofs.Machine.Outcome
import Intcode.Proofs.Network.Fault
import Intcode.Proofs.Network.Move
import Mathlib.Data.List.DropRight

/-!
# Journals

The journal of a session lists in order what happened: every step with its outcome and what it left
in the machine, every operation on a channel with its answer, and every time that a machine was put
at its start or changed from outside. What a channel was sent, what was removed from it and what a
machine did since its last start are read off the journal.
-/

namespace Intcode

/-- The values that an operation on a channel appends. -/
def Channel.Op.sent : Channel.Op → List Int
  | .send v => [v]
  | .receive | .poll | .measure | .drain | .clear => []

/-- The values that an operation on a channel hands out. -/
def Channel.Reply.handed : Channel.Reply → List Int
  | .value v => v.toList
  | .values vs => vs
  | .done | .blocked | .size _ => []

/-- The values that an operation removes from a channel without handing them out. -/
def Channel.dropped (c : Channel) : Channel.Op → List Int
  | .clear => c.toList
  | .send _ | .receive | .poll | .measure | .drain => []

/-- Put the outcome of a step and what it left in the machine on record. -/
def TraceEntry.of (r : Outcome × Machine) : TraceEntry :=
  ⟨r.1, r.2.state.pc, r.2.state.base, r.2.state.memory.size⟩

/-- The values that inputs took in some steps, in order. -/
def TraceEntry.taken (steps : List TraceEntry) : List Int := steps.flatMap (·.outcome.taken)

/-- The values that outputs sent in some steps, in order. -/
def TraceEntry.sent (steps : List TraceEntry) : List Int := steps.flatMap (·.outcome.sent)

/-- What happens in a network. -/
inductive Event (n k : Nat)
  /-- A machine on some wire steps. -/
  | step (i : Fin n) (wire : Wire k) (entry : TraceEntry)
  /-- An operation on a channel is answered, and some values are dropped. -/
  | channel (c : Fin k) (op : Channel.Op) (reply : Channel.Reply) (dropped : List Int)
  /-- A machine is made or reset. -/
  | start (i : Fin n)
  /-- The state of a machine is changed from outside. -/
  | overwrite (i : Fin n)
deriving DecidableEq

namespace Event

variable {n k : Nat}

/-- The values that are sent to a channel. -/
def sentTo (c : Fin k) : Event n k → List Int
  | step _ wire entry => if wire.output = c then entry.outcome.sent else []
  | channel d op _ _ => if d = c then op.sent else []
  | start _ | overwrite _ => []

/-- The values that are removed from a channel. -/
def removedFrom (c : Fin k) : Event n k → List Int
  | step _ wire entry => if wire.input = c then entry.outcome.taken else []
  | channel d _ reply dropped => if d = c then reply.handed ++ dropped else []
  | start _ | overwrite _ => []

/-- The entry of a step of the `i`-th machine. -/
def stepOf? (i : Fin n) : Event n k → Option TraceEntry
  | step j _ entry => if j = i then some entry else none
  | channel .. | start _ | overwrite _ => none

end Event

/-- What happened in a session. -/
abbrev Journal (n k : Nat) := List (Event n k)

namespace Journal

variable {n k : Nat}

/-- All values sent to a channel, in order. -/
def sentTo (events : Journal n k) (c : Fin k) : List Int := events.flatMap (Event.sentTo c)

/-- All values removed from a channel, in order. -/
def removedFrom (events : Journal n k) (c : Fin k) : List Int :=
  events.flatMap (Event.removedFrom c)

/-- The steps of the `i`-th machine. -/
def stepsOf (events : Journal n k) (i : Fin n) : List TraceEntry :=
  events.filterMap (Event.stepOf? i)

@[simp] theorem stepsOf_nil (i : Fin n) : stepsOf ([] : Journal n k) i = [] := rfl

theorem stepsOf_cons (e : Event n k) (rest : Journal n k) (i : Fin n) :
    stepsOf (e :: rest) i = (e.stepOf? i).toList ++ stepsOf rest i := by
  unfold stepsOf
  cases h : e.stepOf? i with
  | none => rw [List.filterMap_cons_none h]; rfl
  | some entry => rw [List.filterMap_cons_some h]; rfl

/-- The steps that the `i`-th machine made. A step that had to wait was not made. -/
def madeBy (events : Journal n k) (i : Fin n) : List TraceEntry :=
  (events.stepsOf i).filter (·.outcome ≠ .waiting)

theorem madeBy_cons (e : Event n k) (rest : Journal n k) (i : Fin n) :
    madeBy (e :: rest) i = (e.stepOf? i).toList.filter (·.outcome ≠ .waiting) ++ madeBy rest i := by
  simp only [madeBy, stepsOf_cons, List.filter_append]

/-- The steps in which the `i`-th machine carried out an instruction. -/
def instructionsOf (events : Journal n k) (i : Fin n) : List TraceEntry :=
  (events.stepsOf i).filter (·.outcome.isInstruction)

theorem instructionsOf_cons (e : Event n k) (rest : Journal n k) (i : Fin n) :
    instructionsOf (e :: rest) i =
      (e.stepOf? i).toList.filter (·.outcome.isInstruction) ++ instructionsOf rest i := by
  simp only [instructionsOf, stepsOf_cons, List.filter_append]

/-- What happened after the `i`-th machine was last made or reset. -/
def since (events : Journal n k) (i : Fin n) : Journal n k :=
  events.rtakeWhile fun e => e ≠ .start i

end Journal

namespace Network

variable {n k : Nat}

/-- What happens in a move. -/
def event (net : Network n k) : Move n k → Event n k
  | .step i => .step i (net.wires.get i) (.of (net.stepped i))
  | .channel c op => .channel c op (net.onChannel c op).1 ((net.channels.get c).dropped op)
  | .start i _ _ _ => .start i
  | .overwrite i _ => .overwrite i

/-- What happens in some moves. -/
def record (net : Network n k) : List (Move n k) → Journal n k
  | [] => []
  | m :: rest => net.event m :: (net.move m).record rest

/-- What happens in a session. -/
def journal (net : Network n k) (ops : List (Operation n k)) : Journal n k :=
  net.record (net.expand ops)

/-- What some steps of the `i`-th machine leave on record. -/
def entries (i : Fin n) : Nat → Network n k → List TraceEntry
  | 0, _ => []
  | t + 1, net => .of (net.stepped i) :: entries i t (net.step i).2

theorem record_append (net : Network n k) (first rest : List (Move n k)) :
    net.record (first ++ rest) = net.record first ++ (net.moveAll first).record rest := by
  induction first generalizing net with
  | nil => rfl
  | cons m first ih => exact congrArg (net.event m :: ·) (ih (net.move m))

theorem stepOf?_event_step (net : Network n k) (i : Fin n) :
    (net.event (.step i)).stepOf? i = some (.of (net.stepped i)) :=
  if_pos rfl

/-- A move that does not restart the `i`-th machine is a step of it, a change from outside, or
leaves it as it is. -/
theorem move_cases {net : Network n k} {m : Move n k} {i : Fin n} (h : net.event m ≠ .start i) :
    m = .step i ∨ (∃ f, m = .overwrite i f) ∨
      ((net.move m).machines.get i = net.machines.get i ∧ (net.event m).stepOf? i = none) := by
  cases m with
  | step j =>
      by_cases hij : j = i
      · exact .inl (congrArg Move.step hij)
      · exact .inr (.inr ⟨step_machine_of_ne net hij, if_neg hij⟩)
  | channel c op => exact .inr (.inr ⟨rfl, rfl⟩)
  | start j wire name program =>
      have hij : j ≠ i := fun e => h (congrArg Event.start e)
      refine .inr (.inr ⟨?_, rfl⟩)
      simp only [move, make, get_set, if_neg hij]
  | overwrite j f =>
      by_cases hij : j = i
      · exact .inr (.inl ⟨f, congrArg (Move.overwrite · f) hij⟩)
      · refine .inr (.inr ⟨?_, rfl⟩)
        simp only [move, onState, modifyAt_eq, get_set, if_neg hij]

/-- What holds of a machine and its steps at first, and is kept by steps and by the changes from
outside that happen, holds for as long as the machine is not restarted. -/
theorem record_preserves {P : Machine → List TraceEntry → Prop} {i : Fin n}
    {net : Network n k} {moves : List (Move n k)} (earlier : List TraceEntry)
    (hstart : .start i ∉ net.record moves)
    (hstep : ∀ m front steps, P m steps → P (m.step front).2 (steps ++ [.of (m.step front)]))
    (hover : .overwrite i ∈ net.record moves →
      ∀ m state steps, P m steps → P { m with state } steps)
    (h : P (net.machines.get i) earlier) :
    P ((net.moveAll moves).machines.get i) (earlier ++ (net.record moves).stepsOf i) := by
  induction moves generalizing net earlier with
  | nil => rwa [record, Journal.stepsOf_nil, List.append_nil]
  | cons m rest ih =>
      simp only [record, List.mem_cons, not_or] at hstart hover
      have hrest {earlier' : List TraceEntry} (h' : P ((net.move m).machines.get i) earlier') :=
        ih earlier' hstart.2 (fun hmem => hover (.inr hmem)) h'
      rw [record, Journal.stepsOf_cons, ← List.append_assoc]
      apply hrest
      rcases move_cases (Ne.symm hstart.1) with rfl | ⟨f, rfl⟩ | ⟨hsame, hentry⟩
      · rw [stepOf?_event_step, move, step_machine_self]
        exact hstep _ (net.front? i) earlier h
      · rw [move, onState_eq, replace_self]
        simpa [event, Event.stepOf?] using hover (.inl rfl) _ _ earlier h
      · simpa [hsame, hentry] using h

/-- A session ends in a part that follows the last start of a machine, or is that part itself if
the machine is not started in it. -/
theorem record_since (net : Network n k) (moves : List (Move n k)) (i : Fin n) :
    ∃ first last, moves = first ++ last ∧
      (net.record moves).since i = (net.moveAll first).record last ∧
      .start i ∉ (net.moveAll first).record last ∧
      (.start i ∈ net.record moves ∧
          (∃ name program, (net.moveAll first).machines.get i = .boot name program) ∨
        .start i ∉ net.record moves ∧ first = []) := by
  induction moves using List.reverseRecOn with
  | nil => exact ⟨[], [], rfl, rfl, List.not_mem_nil, .inr ⟨List.not_mem_nil, rfl⟩⟩
  | append_singleton moves m ih =>
      obtain ⟨first, last, rfl, hsince, hnot, hcases⟩ := ih
      have hrecord : net.record (first ++ last ++ [m]) =
          net.record (first ++ last) ++ [(net.moveAll (first ++ last)).event m] :=
        record_append net (first ++ last) [m]
      by_cases hm : (net.moveAll (first ++ last)).event m = .start i
      · refine ⟨first ++ last ++ [m], [], (List.append_nil _).symm, ?_, List.not_mem_nil,
          .inl ⟨?_, ?_⟩⟩
        · rw [hrecord, Journal.since, List.rtakeWhile_concat_neg _ _ _ (by simpa using hm)]
          rfl
        · rw [hrecord, hm]
          simp
        · cases m with
          | start j wire name program =>
              cases hm
              refine ⟨name, program, ?_⟩
              rw [moveAll_append, moveAll_cons, moveAll_nil, move, make, get_set, if_pos rfl]
          | step j | channel c op | overwrite j f => cases hm
      · have hlast : (net.moveAll first).record (last ++ [m]) =
            (net.moveAll first).record last ++ [(net.moveAll (first ++ last)).event m] := by
          rw [record_append, moveAll_append]
          rfl
        have hmem : .start i ∈ net.record (first ++ last ++ [m]) ↔
            .start i ∈ net.record (first ++ last) := by
          rw [hrecord]
          simp [Ne.symm hm]
        refine ⟨first, last ++ [m], List.append_assoc .., ?_, ?_, ?_⟩
        · rw [hrecord, Journal.since, List.rtakeWhile_concat_pos _ _ _ (by simpa using hm), hlast]
          exact congrArg (· ++ [_]) hsince
        · simp [hlast, hnot, Ne.symm hm]
        · rwa [hmem]

/-- What holds of every machine at its start, and is kept by steps, holds of a machine and its steps
since it was last made or reset, unless its state was changed from outside. -/
theorem since_preserves {P : Machine → List TraceEntry → Prop} {net : Network n k}
    {moves : List (Move n k)} {i : Fin n}
    (hstart : (∃ name program, net.machines.get i = .boot name program) ∨
      .start i ∈ net.record moves)
    (hwrite : .overwrite i ∉ (net.record moves).since i)
    (hboot : ∀ name program, P (.boot name program) [])
    (hstep : ∀ m front steps, P m steps → P (m.step front).2 (steps ++ [.of (m.step front)])) :
    P ((net.moveAll moves).machines.get i) (((net.record moves).since i).stepsOf i) := by
  obtain ⟨first, last, rfl, hsince, hnot, hcases⟩ := record_since net moves i
  have hfirst : ∃ name program, (net.moveAll first).machines.get i = .boot name program := by
    rcases hcases with ⟨-, hfirst⟩ | ⟨hmem, rfl⟩
    · exact hfirst
    · exact hstart.resolve_right hmem
  obtain ⟨name, program, hfirst⟩ := hfirst
  rw [hsince] at hwrite
  rw [moveAll_append, hsince]
  refine record_preserves [] hnot hstep (fun hmem => absurd hmem hwrite) ?_
  rw [hfirst]
  exact hboot name program

end Network

end Intcode
