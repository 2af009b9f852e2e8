import Intcode.Proofs.Network.Journal

/-!
# Conservation of values

No value is lost, doubled or moved out of turn. On every channel, what was there at first and what
was sent since is what was removed since and what is there at last, in the same order. The record of
a machine holds just the values that its own outputs sent since its last start.
-/

namespace Intcode

/-- An operation removes values at the front and appends values at the back. -/
theorem Channel.conserved_perform (c : Channel) (op : Op) :
    c.toList ++ op.sent =
      ((c.perform op).1.handed ++ c.dropped op) ++ (c.perform op).2.toList := by
  cases op with
  | send v => simp [perform, Op.sent, Reply.handed, dropped]
  | receive =>
      simp only [perform, front?_eq]
      cases h : c.toList with
      | nil => simp [Op.sent, Reply.handed, dropped, h]
      | cons v rest => simp [Op.sent, Reply.handed, dropped, h]
  | poll =>
      cases h : c.toList with
      | nil => simp [perform, Op.sent, Reply.handed, dropped, h]
      | cons v rest => simp [perform, Op.sent, Reply.handed, dropped, h]
  | measure => simp [perform, Op.sent, Reply.handed, dropped]
  | drain => simp [perform, Op.sent, Reply.handed, dropped]
  | clear => simp [perform, Op.sent, Reply.handed, dropped]

namespace Network

variable {n k : Nat}

/-- A step removes the value of an input at the front of one channel and appends the value of an
output at the back of the other, which may be the same channel. -/
theorem conserved_step (net : Network n k) (i : Fin n) (c : Fin k) :
    (net.channels.get c).toList ++ (net.event (.step i)).sentTo c =
      (net.event (.step i)).removedFrom c ++ ((net.step i).2.channels.get c).toList := by
  simp only [event, Event.sentTo, Event.removedFrom, TraceEntry.of, step_channels, get_transfer]
  rcases Machine.transfer_step (net.front? i) (net.machines.get i) with
    ⟨ht, htaken, hsent⟩ | ⟨v, hfront, ho⟩ | ⟨v, ho⟩
  · simp [stepped, ht, htaken, hsent]
  · simp only [stepped, ho, Outcome.transfer, Outcome.sent, Outcome.taken, ite_self,
      List.append_nil]
    by_cases hc : (net.wires.get i).input = c
    · subst hc
      rw [front?, Channel.front?_eq] at hfront
      obtain ⟨rest, hrest⟩ := List.head?_eq_some_iff.mp hfront
      simp [hrest]
    · simp [hc]
  · simp only [stepped, ho, Outcome.transfer, Outcome.sent, Outcome.taken, ite_self,
      List.nil_append]
    by_cases hc : (net.wires.get i).output = c
    · simp [hc]
    · simp [hc]

theorem conserved_move (net : Network n k) (m : Move n k) (c : Fin k) :
    (net.channels.get c).toList ++ (net.event m).sentTo c =
      (net.event m).removedFrom c ++ ((net.move m).channels.get c).toList := by
  cases m with
  | step i => exact conserved_step net i c
  | channel d op =>
      simp only [event, Event.sentTo, Event.removedFrom, move, onChannel_eq, get_set]
      by_cases hd : d = c
      · subst hd
        simpa using Channel.conserved_perform (net.channels.get d) op
      · simp [hd]
  | start i wire name program =>
      simp [event, Event.sentTo, Event.removedFrom, move, make, sendAll_nil]
  | overwrite i f => simp [event, Event.sentTo, Event.removedFrom, move, onState_eq, replace]

/-- The balance of a channel is kept from move to move. -/
theorem conserved_record (net : Network n k) (moves : List (Move n k)) (c : Fin k) :
    (net.channels.get c).toList ++ (net.record moves).sentTo c =
      (net.record moves).removedFrom c ++ ((net.moveAll moves).channels.get c).toList := by
  induction moves generalizing net with
  | nil => simp [record, Journal.sentTo, Journal.removedFrom]
  | cons m rest ih =>
      have hrest := ih (net.move m)
      simp only [Journal.sentTo, Journal.removedFrom] at hrest
      simp only [record, Journal.sentTo, Journal.removedFrom, List.flatMap_cons, moveAll_cons]
      calc (net.channels.get c).toList ++
            ((net.event m).sentTo c ++ ((net.move m).record rest).flatMap (Event.sentTo c))
          = (net.event m).removedFrom c ++ (((net.move m).channels.get c).toList ++
              ((net.move m).record rest).flatMap (Event.sentTo c)) := by
            rw [← List.append_assoc, conserved_move, List.append_assoc]
        _ = (net.event m).removedFrom c ++
              (((net.move m).record rest).flatMap (Event.removedFrom c) ++
                (((net.move m).moveAll rest).channels.get c).toList) := by rw [hrest]
        _ = _ := (List.append_assoc ..).symm

/-- The record of a machine that is not restarted grows by what its outputs send. -/
theorem diagnostics_record {net : Network n k} {moves : List (Move n k)} {i : Fin n}
    (h : .start i ∉ net.record moves) :
    ((net.moveAll moves).machines.get i).diagnostics.toList =
      (net.machines.get i).diagnostics.toList ++
        TraceEntry.sent ((net.record moves).stepsOf i) := by
  apply record_preserves (P := fun m steps => m.diagnostics.toList =
    (net.machines.get i).diagnostics.toList ++ TraceEntry.sent steps) [] h
  · intro m front steps hm
    rw [Machine.diagnostics_step, hm]
    simp [TraceEntry.sent, TraceEntry.of]
  · intro _ m state steps hm
    exact hm
  · simp [TraceEntry.sent]

/-- The record of a machine goes back to its last start. -/
theorem diagnostics_since (net : Network n k) (moves : List (Move n k)) (i : Fin n) :
    ((net.moveAll moves).machines.get i).diagnostics.toList =
      (if .start i ∈ net.record moves then [] else (net.machines.get i).diagnostics.toList) ++
        TraceEntry.sent (((net.record moves).since i).stepsOf i) := by
  obtain ⟨first, last, rfl, hsince, hnot, hcases⟩ := record_since net moves i
  rw [moveAll_append, hsince, diagnostics_record hnot]
  congr 1
  rcases hcases with ⟨hmem, name, program, hboot⟩ | ⟨hmem, rfl⟩
  · rw [hboot, if_pos hmem]
    rfl
  · rw [if_neg hmem]
    rfl

/-- Whatever is done with a network, the values that were on a channel at first and those sent to it
are the values removed from it and those still there, in the same order; and the record of a machine
lists the values that its own outputs sent since it was last made or reset. -/
theorem values_conserved (net : Network n k) (ops : List (Operation n k)) :
    let events := net.journal ops
    let final := net.operateAll ops
    (∀ c : Fin k, (net.channels.get c).toList ++ events.sentTo c =
      events.removedFrom c ++ (final.channels.get c).toList) ∧
    ∀ i : Fin n, (final.machines.get i).diagnostics.toList =
      (if .start i ∈ events then [] else (net.machines.get i).diagnostics.toList) ++
        TraceEntry.sent ((events.since i).stepsOf i) := by
  intro events final
  have hfinal : final = net.moveAll (net.expand ops) := operateAll_eq_moveAll net ops
  rw [hfinal]
  exact ⟨conserved_record net (net.expand ops), diagnostics_since net (net.expand ops)⟩

end Network

end Intcode
