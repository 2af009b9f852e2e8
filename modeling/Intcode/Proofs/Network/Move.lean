import Intcode.Proofs.Network.Reset

/-!
# Moves

All that is done with a network comes down to moves of four kinds: a machine steps, an operation is
performed on a channel, a machine is put at its start, and the state of a machine is changed from
outside. A run is a number of steps, a reset clears two channels and restarts the machine, and a
machine is made by putting it at its start and sending it its inputs. What holds of every move
therefore holds of every session.
-/

namespace Intcode

/-- What can be done with a network, in which machines may be made at any time. -/
inductive Operation (n k : Nat)
  | act (a : Action n k)
  /-- Make a machine on two channels and queue its inputs. -/
  | make (i : Fin n) (wire : Wire k) (name : String) (program : Program) (inputs : List Int)

/-- The smallest changes of a network. -/
inductive Move (n k : Nat)
  | step (i : Fin n)
  | channel (c : Fin k) (op : Channel.Op)
  /-- Put a machine at the start of its program. -/
  | start (i : Fin n) (wire : Wire k) (name : String) (program : Program)
  | overwrite (i : Fin n) (f : State → State)

namespace Network

variable {n k : Nat}

/-- Make a machine in the `i`-th place, queueing its inputs behind what is already there. -/
def make (net : Network n k) (i : Fin n) (wire : Wire k) (name : String) (program : Program)
    (inputs : List Int) : Network n k where
  machines := net.machines.set i (.boot name program) i.isLt
  wires := net.wires.set i wire i.isLt
  channels := sendAll net.channels wire.input inputs

def operate (net : Network n k) : Operation n k → Network n k
  | .act a => net.act a
  | .make i wire name program inputs => net.make i wire name program inputs

/-- Do one operation after the other. -/
def operateAll (net : Network n k) (ops : List (Operation n k)) : Network n k :=
  ops.foldl operate net

def move (net : Network n k) : Move n k → Network n k
  | .step i => (net.step i).2
  | .channel c op => (net.onChannel c op).2
  | .start i wire name program => net.make i wire name program []
  | .overwrite i f => (net.onState i fun s => ((), f s)).2

/-- Make one move after the other. -/
def moveAll (net : Network n k) (moves : List (Move n k)) : Network n k :=
  moves.foldl move net

@[simp] theorem moveAll_nil (net : Network n k) : net.moveAll [] = net := rfl

@[simp] theorem moveAll_cons (net : Network n k) (m : Move n k) (rest : List (Move n k)) :
    net.moveAll (m :: rest) = (net.move m).moveAll rest := rfl

theorem moveAll_append (net : Network n k) (first rest : List (Move n k)) :
    net.moveAll (first ++ rest) = (net.moveAll first).moveAll rest :=
  List.foldl_append

/-- The number of steps that a run makes. -/
def runLength (i : Fin n) : Nat → Network n k → Nat
  | 0, _ => 0
  | fuel + 1, net =>
    if (net.machines.get i).state.halted then 0
    else if net.waits i then 0
    else
      match net.step i with
      | (.failed _, _) => 1
      | (_, net) => runLength i fuel net + 1

/-- A run leaves what as many steps leave. -/
theorem runFrom_eq_advance (net : Network n k) (i : Fin n) (made fuel : Nat) :
    (runFrom i made fuel net).2 = net.advance i (runLength i fuel net) := by
  induction fuel generalizing made net with
  | zero =>
      unfold runFrom
      split
      · rfl
      · split <;> rfl
  | succ fuel ih =>
      unfold runFrom runLength
      split
      · rfl
      · split
        · rfl
        · have hnext : net.advance i 1 = (net.step i).2 := rfl
          generalize hs : net.step i = r at hnext
          obtain ⟨outcome, net'⟩ := r
          cases outcome with
          | failed fault => exact hnext.symm
          | executed _ _ | idle | waiting =>
              refine (ih net' (made + 1)).trans ?_
              change _ = (net.step i).2.advance i _
              rw [hs]

theorem moveAll_steps (net : Network n k) (i : Fin n) (t : Nat) :
    net.moveAll (List.replicate t (.step i)) = net.advance i t := by
  induction t generalizing net with
  | zero => rfl
  | succ t ih => exact ih (net.step i).2

theorem onChannel_eq (net : Network n k) (c : Fin k) (op : Channel.Op) :
    net.onChannel c op = (((net.channels.get c).perform op).1,
      { net with
        channels := net.channels.set c ((net.channels.get c).perform op).2 c.isLt }) := by
  simp only [onChannel, modifyAt_eq]

/-- Values are sent one after the other. -/
theorem moveAll_sends (net : Network n k) (c : Fin k) (vs : List Int) :
    net.moveAll (vs.map fun v => .channel c (.send v)) =
      { net with channels := sendAll net.channels c vs } := by
  induction vs generalizing net with
  | nil => exact congrArg (Network.mk _ _) (sendAll_nil net.channels c).symm
  | cons v vs ih =>
      rw [List.map_cons, moveAll_cons, ih]
      simp only [move, onChannel_eq, Channel.perform]
      congr 1
      apply get_ext
      intro d
      rw [get_sendAll, get_sendAll, get_set, Channel.sendAll_cons]
      by_cases h : c = d
      · subst h
        simp only [if_true]
      · simp only [if_neg h]

/-- The moves of an operation. -/
def moves (net : Network n k) : Operation n k → List (Move n k)
  | .act (.step i) => [.step i]
  | .act (.run i limit) | .act (.call i limit) => List.replicate (runLength i limit net) (.step i)
  | .act (.writeInput i v) => [.channel (net.wires.get i).input (.send v)]
  | .act (.onChannel c op) => [.channel c op]
  | .act (.reset i) =>
    [.channel (net.wires.get i).input .clear, .channel (net.wires.get i).output .clear,
      .start i (net.wires.get i) (net.machines.get i).name (net.machines.get i).program]
  | .act (.overwrite i f) => [.overwrite i f]
  | .make i wire name program inputs =>
    .start i wire name program :: inputs.map fun v => .channel wire.input (.send v)

theorem reset_eq_moveAll (net : Network n k) (i : Fin n) :
    net.reset i = net.moveAll (net.moves (.act (.reset i))) := by
  simp only [moves, moveAll_cons, moveAll_nil, move, onChannel_eq, Channel.perform, make,
    sendAll_nil, set_get_self, reset, modifyAt_eq, Machine.reset_eq_boot]

theorem make_eq_moveAll (net : Network n k) (i : Fin n) (wire : Wire k) (name : String)
    (program : Program) (inputs : List Int) :
    net.make i wire name program inputs =
      net.moveAll (net.moves (.make i wire name program inputs)) := by
  simp only [moves, moveAll_cons, moveAll_sends, move, make, sendAll_nil]

/-- Every operation is a sequence of moves. -/
theorem operate_eq_moveAll (net : Network n k) (op : Operation n k) :
    net.operate op = net.moveAll (net.moves op) := by
  cases op with
  | act a =>
      cases a with
      | step i => rfl
      | run i limit | call i limit =>
          exact (runFrom_eq_advance net i 0 limit).trans (moveAll_steps net i _).symm
      | writeInput i v => rfl
      | onChannel c op => rfl
      | reset i => exact reset_eq_moveAll net i
      | overwrite i f => rfl
  | make i wire name program inputs => exact make_eq_moveAll net i wire name program inputs

/-- The moves of a session. -/
def expand (net : Network n k) : List (Operation n k) → List (Move n k)
  | [] => []
  | op :: rest => net.moves op ++ (net.operate op).expand rest

theorem operateAll_eq_moveAll (net : Network n k) (ops : List (Operation n k)) :
    net.operateAll ops = net.moveAll (net.expand ops) := by
  induction ops generalizing net with
  | nil => rfl
  | cons op rest ih =>
      rw [expand, moveAll_append, ← operate_eq_moveAll]
      exact ih (net.operate op)

section Assembly

variable {s : Nat}

/-- Make the machine of the `i`-th part. -/
def makePart (parts : Vector (Part s) n) (i : Fin n) : Operation n (s + 2 * n) :=
  .make i (wireOf (parts.get i).setup i) (parts.get i).setup.name (parts.get i).program
    (parts.get i).setup.inputs

/-- Set the entries in some places, one after the other. -/
def setEach {α : Type} (f : Fin n → α) (v : Vector α n) : List (Fin n) → Vector α n
  | [] => v
  | i :: rest => setEach f (v.set i (f i) i.isLt) rest

/-- An entry has its new value if its place is among those that are set, or if it had this value
before. -/
theorem get_setEach {α : Type} {f : Fin n → α} {v : Vector α n} {places : List (Fin n)} {j : Fin n}
    (h : j ∈ places ∨ v.get j = f j) : (setEach f v places).get j = f j := by
  induction places generalizing v with
  | nil => exact h.resolve_left List.not_mem_nil
  | cons i rest ih =>
      apply ih
      rw [get_set]
      by_cases hij : i = j
      · subst hij
        exact .inr (if_pos rfl)
      · rw [if_neg hij]
        exact h.imp_left fun hj => (List.mem_cons.mp hj).resolve_left (Ne.symm hij)

/-- Making machines sets their places and queues their inputs in order. -/
theorem operateAll_makePart (parts : Vector (Part s) n) (places : List (Fin n))
    (net : Network n (s + 2 * n)) :
    net.operateAll (places.map (makePart parts)) =
      ⟨setEach (fun i => .boot (parts.get i).setup.name (parts.get i).program) net.machines places,
        setEach (fun i => wireOf (parts.get i).setup i) net.wires places,
        places.foldl (fun cs i =>
          sendAll cs (wireOf (parts.get i).setup i).input (parts.get i).setup.inputs)
            net.channels⟩ := by
  induction places generalizing net with
  | nil => rfl
  | cons i rest ih => exact ih (net.operate (makePart parts i))

/-- A network is assembled by making its machines in order, whatever was in their places before. -/
theorem assemble_eq_operateAll (shared : Vector Channel s) (parts : Vector (Part s) n)
    (machines : Vector Machine n) (wires : Vector (Wire (s + 2 * n)) n) :
    assemble shared parts =
      operateAll ⟨machines, wires, shared ++ Vector.replicate (2 * n) Channel.empty⟩
        ((List.finRange n).map (makePart parts)) := by
  have hwire (j : Fin n) : (Vector.ofFn fun i => wireOf (parts.get i).setup i).get j =
      wireOf (parts.get j).setup j :=
    Vector.getElem_ofFn j.isLt
  simp only [operateAll_makePart, assemble, hwire, Fin.foldl_eq_finRange_foldl]
  congr 1
  · apply get_ext
    intro j
    rw [get_setEach (.inl (List.mem_finRange j))]
    exact Vector.getElem_map _ j.isLt
  · apply get_ext
    intro j
    rw [hwire, get_setEach (.inl (List.mem_finRange j))]

end Assembly

end Network

end Intcode
