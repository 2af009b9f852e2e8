import Intcode.Proofs.Network.Step

/-!
# Assembled networks

An assembled network has its machines at the start of their programs, each wired to the channels
that its setup names. Where a setup names no channel, the machine has one of its own, which is no
other machine's. The inputs are queued machine by machine, so that on a shared channel they stand
in this order behind what the channel held before.
-/

namespace Intcode

theorem Channel.sendAll_nil (c : Channel) : c.sendAll [] = c := by
  apply ext_toList
  simp

theorem Channel.sendAll_cons (c : Channel) (v : Int) (vs : List Int) :
    c.sendAll (v :: vs) = (c.send v).sendAll vs := by
  apply ext_toList
  simp

theorem Channel.empty_sendAll (vs : List Int) : empty.sendAll vs = ofList vs := by
  apply ext_toList
  simp

/-- If a list holds one item that counts, its values are the values of that item. -/
theorem flatMap_single {ι : Type} {items : List ι} {i : ι} {f : ι → List Int}
    (hnodup : items.Nodup) (hi : i ∈ items) (hf : ∀ j, j ≠ i → f j = []) :
    items.flatMap f = f i := by
  obtain ⟨before, after, rfl⟩ := List.append_of_mem hi
  obtain ⟨-, hlast, hdisjoint⟩ := List.nodup_append.mp hnodup
  have hbefore : before.flatMap f = [] := by
    apply List.flatMap_eq_nil_iff.mpr
    intro j hj
    exact hf j (hdisjoint j hj i List.mem_cons_self)
  have hafter : after.flatMap f = [] := by
    apply List.flatMap_eq_nil_iff.mpr
    intro j hj
    apply hf
    rintro rfl
    exact (List.nodup_cons.mp hlast).1 hj
  rw [List.flatMap_append, List.flatMap_cons, hbefore, hafter, List.nil_append, List.append_nil]

namespace Network

variable {n k s t : Nat}

theorem get_sendAll (channels : Vector Channel k) (c d : Fin k) (vs : List Int) :
    (sendAll channels c vs).get d =
      if c = d then (channels.get d).sendAll vs else channels.get d :=
  get_modifyAt _ _ _ _

theorem sendAll_nil (channels : Vector Channel k) (c : Fin k) :
    sendAll channels c [] = channels := by
  apply get_ext
  intro d
  rw [get_sendAll, Channel.sendAll_nil, ite_self]

/-- Values that are queued one item after the other stand in the order of the items. -/
theorem toList_foldl_sendAll {ι : Type} (input : ι → Fin k) (values : ι → List Int)
    (items : List ι) (channels : Vector Channel k) (c : Fin k) :
    ((items.foldl (fun cs i => sendAll cs (input i) (values i)) channels).get c).toList =
      (channels.get c).toList ++ items.flatMap fun i => if input i = c then values i else [] := by
  induction items generalizing channels with
  | nil => exact (List.append_nil _).symm
  | cons i rest ih =>
      rw [List.foldl_cons, ih, get_sendAll, List.flatMap_cons, ← List.append_assoc]
      by_cases h : input i = c
      · rw [if_pos h, if_pos h, Channel.toList_sendAll]
      · rw [if_neg h, if_neg h, List.append_nil]

section Wire

variable {setup : Setup (Fin s)} (i : Fin n)

theorem val_input_of_none (h : setup.input = none) :
    (wireOf setup i).input.val = s + 2 * i.val := by
  simp only [wireOf, h]

theorem val_output_of_none (h : setup.output = none) :
    (wireOf setup i).output.val = s + 2 * i.val + 1 := by
  simp only [wireOf, h]

/-- A channel that is the named one, or else lies behind all shared channels, is a shared channel
exactly if that one is named. -/
theorem eq_shared_iff {named : Option (Fin s)} {d : Fin (s + t)}
    (hsome : ∀ c, named = some c → d = c.castAdd t) (hnone : named = none → s ≤ d.val)
    (c : Fin s) : d = c.castAdd t ↔ named = some c := by
  constructor
  · intro hd
    have hlt : d.val < s := by
      rw [hd]
      exact c.isLt
    cases named with
    | none => exact absurd hlt (Nat.not_lt.mpr (hnone rfl))
    | some e =>
        rw [hsome e rfl, Fin.ext_iff] at hd
        exact congrArg some (Fin.ext hd)
  · exact hsome c

variable (setup)

/-- A machine takes its values from a shared channel exactly if its setup names that channel. -/
theorem wireOf_input_eq (c : Fin s) :
    (wireOf setup i).input = c.castAdd (2 * n) ↔ setup.input = some c := by
  apply eq_shared_iff
  · intro d h
    simp only [wireOf, h]
  · intro h
    rw [val_input_of_none i h]
    omega

/-- A machine sends its values to a shared channel exactly if its setup names that channel. -/
theorem wireOf_output_eq (c : Fin s) :
    (wireOf setup i).output = c.castAdd (2 * n) ↔ setup.output = some c := by
  apply eq_shared_iff
  · intro d h
    simp only [wireOf, h]
  · intro h
    rw [val_output_of_none i h]
    omega

/-- The input channel of a machine is a shared one or its own. -/
theorem val_input :
    (wireOf setup i).input.val < s ∨ (wireOf setup i).input.val = s + 2 * i.val := by
  cases h : setup.input with
  | none => exact .inr (val_input_of_none i h)
  | some c =>
      rw [(wireOf_input_eq setup i c).mpr h]
      exact .inl c.isLt

end Wire

/-- Shared channels come first. -/
theorem get_shared (shared : Vector Channel s) (own : Vector Channel t) (c : Fin s) :
    (shared ++ own).get (c.castAdd t) = shared.get c :=
  Vector.getElem_append_left c.isLt

/-- Nothing is on the channels that the machines have of their own. -/
theorem get_own (shared : Vector Channel s) {c : Fin (s + t)} (h : s ≤ c.val) :
    (shared ++ Vector.replicate t Channel.empty).get c = .empty := by
  change (shared ++ Vector.replicate t Channel.empty)[c.val] = _
  rw [Vector.getElem_append_right c.isLt h, Vector.getElem_replicate]

section Assembled

variable (shared : Vector Channel s) (parts : Vector (Part s) n)

theorem assemble_machine (i : Fin n) :
    (assemble shared parts).machines.get i =
      .boot (parts.get i).setup.name (parts.get i).program :=
  Vector.getElem_map _ i.isLt

theorem assemble_wire (i : Fin n) :
    (assemble shared parts).wires.get i = wireOf (parts.get i).setup i :=
  get_ofFn _ i

theorem assemble_channels :
    (assemble shared parts).channels =
      (List.finRange n).foldl (fun cs i =>
        sendAll cs (wireOf (parts.get i).setup i).input (parts.get i).setup.inputs)
        (shared ++ Vector.replicate (2 * n) Channel.empty) := by
  simp only [assemble, get_ofFn, Fin.foldl_eq_finRange_foldl]

/-- Each channel holds what it held before and then the inputs of the machines that take their
values from it, in the order of the machines. -/
theorem toList_assemble (c : Fin (s + 2 * n)) :
    ((assemble shared parts).channels.get c).toList =
      ((shared ++ Vector.replicate (2 * n) Channel.empty).get c).toList ++
        (List.finRange n).flatMap fun i =>
          if (wireOf (parts.get i).setup i).input = c then (parts.get i).setup.inputs else [] := by
  rw [assemble_channels]
  exact toList_foldl_sendAll _ _ _ _ c

theorem toList_shared (c : Fin s) :
    ((assemble shared parts).channels.get (c.castAdd (2 * n))).toList =
      (shared.get c).toList ++ (List.finRange n).flatMap fun i =>
        if (parts.get i).setup.input = some c then (parts.get i).setup.inputs else [] := by
  simp only [toList_assemble, get_shared, wireOf_input_eq]

variable {parts} {i : Fin n}

/-- A machine that was given no input channel finds its inputs and nothing else. -/
theorem toList_input_of_none (h : (parts.get i).setup.input = none) :
    ((assemble shared parts).channels.get (wireOf (parts.get i).setup i).input).toList =
      (parts.get i).setup.inputs := by
  have hi := val_input_of_none i h
  rw [toList_assemble, get_own shared (by omega), Channel.toList_empty, List.nil_append,
    flatMap_single (List.nodup_finRange n) (List.mem_finRange i), if_pos rfl]
  -- Every other machine takes its values from a shared channel or from its own.
  intro j hne
  rw [if_neg]
  intro hsame
  have hj := val_input (parts.get j).setup j
  rw [hsame, hi] at hj
  exact hne (Fin.ext (by omega))

/-- A machine that was given no output channel has one with nothing on it. -/
theorem toList_output_of_none (h : (parts.get i).setup.output = none) :
    ((assemble shared parts).channels.get (wireOf (parts.get i).setup i).output).toList = [] := by
  have hi := val_output_of_none i h
  rw [toList_assemble, get_own shared (by omega), Channel.toList_empty, List.nil_append,
    List.flatMap_eq_nil_iff]
  intro j _
  rw [if_neg]
  intro hsame
  have hj := val_input (parts.get j).setup j
  rw [hsame, hi] at hj
  omega

end Assembled

end Network

end Intcode
