/-!
# Channels

A channel is a queue of values: what is sent first is received first. The view of a channel is
the list of its waiting values, front first. Holders of a channel refer to it by a handle. Several
handles may refer to the same queue, and what is sent through one of them is received through any
other.
-/

namespace Intcode

/-- The values waiting on a channel, front first. -/
structure Channel where
  values : Array Int
deriving DecidableEq, Repr, Inhabited

namespace Channel

/-- A channel without values. -/
def empty : Channel := ⟨#[]⟩

/-- A channel holding the given values. -/
def ofList (vs : List Int) : Channel := ⟨vs.toArray⟩

/-- The waiting values, front first. -/
def toList (c : Channel) : List Int := c.values.toList

/-- The number of waiting values. -/
def size (c : Channel) : Nat := c.values.size

/-- Whether no value is waiting. -/
def isEmpty (c : Channel) : Bool := c.values.isEmpty

/-- Append a value. -/
def send (c : Channel) (v : Int) : Channel := ⟨c.values.push v⟩

/-- Append several values in order. -/
def sendAll (c : Channel) (vs : List Int) : Channel := ⟨c.values ++ vs⟩

/-- The value that will be received next. -/
def front? (c : Channel) : Option Int := c.values[0]?

/-- Remove the value at the front, if there is one. -/
def pop (c : Channel) : Channel := ⟨c.values.eraseIdxIfInBounds 0⟩

@[simp] theorem toList_empty : empty.toList = [] := rfl

@[simp] theorem toList_ofList (vs : List Int) : (ofList vs).toList = vs := rfl

@[simp] theorem toList_send (c : Channel) (v : Int) : (c.send v).toList = c.toList ++ [v] := by
  simp [toList, send]

@[simp] theorem toList_sendAll (c : Channel) (vs : List Int) :
    (c.sendAll vs).toList = c.toList ++ vs := by
  simp [toList, sendAll]

@[simp] theorem front?_eq (c : Channel) : c.front? = c.toList.head? := by
  simp [front?, toList, List.head?_eq_getElem?]

@[simp] theorem toList_pop (c : Channel) : c.pop.toList = c.toList.tail := by
  simp [toList, pop, List.eraseIdx_zero]

@[simp] theorem size_eq (c : Channel) : c.size = c.toList.length := by
  simp [size, toList]

/-- Two channels are equal if the same values wait on them. -/
theorem ext_toList {c d : Channel} (h : c.toList = d.toList) : c = d := by
  cases c
  cases d
  exact congrArg mk (Array.toList_inj.1 h)

/-- The operations that the holder of a channel can perform. -/
inductive Op
  | send (v : Int)
  /-- Take a value, waiting for one if there is none. -/
  | receive
  /-- Take a value if there is one. -/
  | poll
  | measure
  /-- Take all values. -/
  | drain
  /-- Discard all values. -/
  | clear
deriving DecidableEq, Repr

/-- The answers to channel operations. -/
inductive Reply
  | done
  | value (v : Option Int)
  /-- No value is there, and nothing happens until one arrives. -/
  | blocked
  | size (n : Nat)
  | values (vs : List Int)
deriving DecidableEq, Repr

/-- Perform an operation on a channel. -/
def perform (c : Channel) : Op → Reply × Channel
  | .send v => (.done, c.send v)
  | .receive =>
    match c.front? with
    | some v => (.value v, c.pop)
    | none => (.blocked, c)
  | .poll => (.value c.front?, c.pop)
  | .measure => (.size c.size, c)
  | .drain => (.values c.toList, empty)
  | .clear => (.done, empty)

end Channel

/-- Queues, and for each handle the number of the queue it refers to. -/
structure Handles where
  queues : Array Channel
  refs : Array Nat
deriving DecidableEq, Repr

namespace Handles

/-- One handle to one channel. -/
def single (c : Channel) : Handles := ⟨#[c], #[0]⟩

/-- Add a handle to the queue that an existing handle refers to. -/
def share? (t : Handles) (h : Nat) : Option Handles :=
  t.refs[h]?.map fun q => { t with refs := t.refs.push q }

/-- Add a handle to a new, empty queue. -/
def fresh (t : Handles) : Handles :=
  ⟨t.queues.push .empty, t.refs.push t.queues.size⟩

/-- The channel that a handle refers to. -/
def get? (t : Handles) (h : Nat) : Option Channel := do t.queues[← t.refs[h]?]?

/-- Perform an operation through a handle. -/
def perform? (t : Handles) (h : Nat) (op : Channel.Op) : Option (Channel.Reply × Handles) := do
  let q ← t.refs[h]?
  let c ← t.queues[q]?
  let (reply, c) := c.perform op
  return (reply, { t with queues := t.queues.setIfInBounds q c })

/-- The number of waiting values that each handle sees. -/
def sizes (t : Handles) : List Nat :=
  t.refs.toList.map fun q => (t.queues.getD q .empty).size

end Handles

end Intcode
