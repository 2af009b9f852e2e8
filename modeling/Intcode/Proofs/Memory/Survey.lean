import Intcode.Memory

/-!
# Surveys of memory accesses

Until it writes, an access looks at memory only through the values of its cells and changes
nothing but the size. A survey gives the two things that such an access amounts to: its result, and
the size that memory must have. The same survey serves every memory with the same values, whatever
the size of that memory. Accesses that only look can therefore be made in any order, and made again
they change nothing.
-/

namespace Intcode

/-- The number that a parameter cell gives for an address, read off the values of all cells. -/
def Mode.denote (mode : Mode) (view : Nat → Int) (location : Nat) (base : Int) : Int :=
  match mode with
  | immediate => location
  | position => view location
  | relative => view location + base

/-- The address that a parameter cell gives depends on memory through the values alone. -/
theorem Memory.denoted_eq (m : Memory) (mode : Mode) (location : Nat) (base : Int) :
    m.denoted mode location base = mode.denote m.read location base := by
  cases mode <;> rfl

namespace Memory

/-- Growing twice is growing once to the larger of the two sizes. -/
@[simp] theorem extend_extend (m : Memory) (a b : Nat) :
    (m.extend a).extend b = m.extend (max a b) := by
  simp only [extend, Array.append_assoc, Array.replicate_append_replicate, Array.size_append,
    Array.size_replicate]
  congr 3
  omega

@[simp] theorem extend_zero (m : Memory) : m.extend 0 = m :=
  m.extend_of_le 0 (Nat.zero_le _)

/-- The values of a memory are not changed by growing it. -/
@[simp] theorem read_extend_eq (m : Memory) (a : Nat) : (m.extend a).read = m.read :=
  funext (m.read_extend a)

/-- A memory that fits the address space can grow to any size within it. -/
theorem size_extend_lt {m : Memory} {a : Nat} (hm : m.size < addressSpace)
    (ha : a < addressSpace) : (m.extend a).size < addressSpace := by
  rw [size_extend]
  exact Nat.max_lt.mpr ⟨hm, ha⟩

end Memory

/-- The result of an access together with the size that memory must have for it. -/
structure Survey (α : Type) where
  result : Except Fault α
  reach : Nat

namespace Survey

variable {α β : Type}

/-- A result that is known without looking at memory. -/
def known (r : Except Fault α) : Survey α := ⟨r, 0⟩

/-- Continue with the result of a survey. Memory must be large enough for both parts. -/
def andThen (s : Survey α) (f : α → Survey β) : Survey β :=
  match s.result with
  | .ok a => ⟨(f a).result, max s.reach (f a).reach⟩
  | .error e => ⟨.error e, s.reach⟩

instance : Monad Survey where
  pure a := known (.ok a)
  bind := andThen

@[simp] theorem pure_eq (a : α) : (pure a : Survey α) = ⟨.ok a, 0⟩ := rfl

@[simp] theorem ok_bind (a : α) (n : Nat) (f : α → Survey β) :
    (⟨.ok a, n⟩ : Survey α) >>= f = ⟨(f a).result, max n (f a).reach⟩ := rfl

@[simp] theorem error_bind (e : Fault) (n : Nat) (f : α → Survey β) :
    (⟨.error e, n⟩ : Survey α) >>= f = ⟨.error e, n⟩ := rfl

theorem bind_of_ok {s : Survey α} {a : α} (h : s.result = .ok a) (f : α → Survey β) :
    s >>= f = ⟨(f a).result, max s.reach (f a).reach⟩ := by
  obtain ⟨r, n⟩ := s
  subst h
  rfl

theorem bind_of_error {s : Survey α} {e : Fault} (h : s.result = .error e) (f : α → Survey β) :
    s >>= f = ⟨.error e, s.reach⟩ := by
  obtain ⟨r, n⟩ := s
  subst h
  rfl

/-- The result of a survey in two parts is that of its parts one after the other. -/
theorem result_bind (s : Survey α) (f : α → Survey β) :
    (s >>= f).result = s.result >>= fun a => (f a).result := by
  obtain ⟨r, n⟩ := s
  cases r <;> rfl

/-- A survey in two parts succeeds exactly if both parts do. -/
theorem bind_result_eq_ok {s : Survey α} {f : α → Survey β} {b : β} :
    (s >>= f).result = .ok b ↔ ∃ a, s.result = .ok a ∧ (f a).result = .ok b := by
  cases h : s.result with
  | ok a => simp [bind_of_ok h]
  | error e => simp [bind_of_error h]

/-- Give the result `x` once the cell at an address is reached. Only the last address of all is
out of reach. -/
def cell (a : Nat) (x : α) : Survey α :=
  if a + 1 < addressSpace then ⟨.ok x, a + 1⟩ else ⟨.error (.addressOutOfRange a), 0⟩

theorem cell_bind_pure (a : Nat) (x : α) (f : α → β) :
    (cell a x >>= fun v => pure (f v)) = cell a (f x) := by
  by_cases ha : a + 1 < addressSpace <;> simp [cell, ha]

/-- The address of the operand that the parameter cell at `location` names. -/
def address (view : Nat → Int) (mode : Mode) (location : Nat) (base : Int) : Survey Nat :=
  if location + 1 < addressSpace then
    let a := mode.denote view location base
    if a < 0 then ⟨.error (.negativeAddress a), location + 1⟩
    else if a.toNat + 1 < addressSpace then ⟨.ok a.toNat, max (location + 1) (a.toNat + 1)⟩
    else ⟨.error (.addressOutOfRange a.toNat), location + 1⟩
  else ⟨.error (.addressOutOfRange location), 0⟩

/-- The parameter cell is reached first, then its number is taken for an address, and then the
operand is reached. -/
theorem address_eq_bind (view : Nat → Int) (mode : Mode) (location : Nat) (base : Int) :
    address view mode location base =
      cell location (mode.denote view location base) >>= fun v =>
        known (Memory.toAddress v) >>= fun a => cell a a := by
  generalize hv : mode.denote view location base = v
  by_cases hl : location + 1 < addressSpace
  · by_cases hneg : v < 0
    · simp [address, cell, known, Memory.toAddress, hv, hl, hneg]
    · by_cases ha : v.toNat + 1 < addressSpace
      · have hlt : v.toNat < addressSpace := Nat.lt_of_succ_lt ha
        simp [address, cell, known, Memory.toAddress, hv, hl, hneg, ha, hlt]
      · by_cases hlt : v.toNat < addressSpace <;>
          simp [address, cell, known, Memory.toAddress, hv, hl, hneg, ha, hlt]
  · simp [address, cell, hl]

theorem address_immediate (view : Nat → Int) (location : Nat) (base : Int) :
    address view .immediate location base = cell location location := by
  have hneg : ¬ (location : Int) < 0 := by omega
  by_cases hl : location + 1 < addressSpace <;> simp [address, cell, Mode.denote, hl, hneg]

/-- A parameter names an operand exactly if its cell can be reached and the number in it is an
address other than the last. -/
theorem address_eq_ok {view : Nat → Int} {mode : Mode} {location : Nat} {base : Int} {a : Nat} :
    (address view mode location base).result = .ok a ↔
      location + 1 < addressSpace ∧ a + 1 < addressSpace ∧
        mode.denote view location base = a := by
  simp only [address]
  split
  · split
    · simp only [reduceCtorEq, false_iff, not_and]
      omega
    · split
      · simp only [Except.ok.injEq]
        omega
      · simp only [reduceCtorEq, false_iff, not_and]
        omega
  · simp only [reduceCtorEq, false_iff, not_and]
    omega

/-- The cell that a parameter names lies within the reach of its survey. -/
theorem lt_reach_of_address {view : Nat → Int} {mode : Mode} {location : Nat} {base : Int}
    {a : Nat} (h : (address view mode location base).result = .ok a) :
    a < (address view mode location base).reach := by
  obtain ⟨hl, ha, he⟩ := address_eq_ok.mp h
  simp only [address, if_pos hl, he]
  rw [if_neg (by omega), if_pos (by omega)]
  simp only [Int.toNat_natCast]
  omega

end Survey

namespace Access

variable {α β : Type} (view : Nat → Int)

/-- On every memory with the given values that fits the address space, an access has the result
of the survey and does nothing but grow memory to its reach. -/
structure Surveys (x : Access α) (view : Nat → Int) (s : Survey α) : Prop where
  reach_lt : s.reach < addressSpace
  exec_eq : ∀ m : Memory, m.size < addressSpace → m.read = view →
    x.exec m = (s.result, m.extend s.reach)

theorem surveys_known (r : Except Fault α) : (liftM r : Access α).Surveys view (.known r) where
  reach_lt := by simp [Survey.known, addressSpace]
  exec_eq := by
    intro m _ _
    simp [Survey.known]

theorem surveys_pure (a : α) : (pure a : Access α).Surveys view (pure a) :=
  surveys_known view (.ok a)

theorem surveys_throw (e : Fault) : (throw e : Access α).Surveys view (.known (.error e)) :=
  surveys_known view (.error e)

/-- Accesses that follow each other are surveyed part by part. The second part may rely on the
result of the first. -/
theorem Surveys.bind {view : Nat → Int} {x : Access α} {s : Survey α} {f : α → Access β}
    {g : α → Survey β} (hx : x.Surveys view s)
    (hf : ∀ a, s.result = .ok a → (f a).Surveys view (g a)) :
    (x >>= f).Surveys view (s >>= g) := by
  cases h : s.result with
  | error e =>
      rw [Survey.bind_of_error h]
      refine ⟨hx.reach_lt, ?_⟩
      intro m hm hv
      rw [exec_bind, hx.exec_eq m hm hv, h]
  | ok a =>
      have ha := hf a h
      rw [Survey.bind_of_ok h]
      refine ⟨Nat.max_lt.mpr ⟨hx.reach_lt, ha.reach_lt⟩, ?_⟩
      intro m hm hv
      have hfit := Memory.size_extend_lt hm hx.reach_lt
      rw [exec_bind, hx.exec_eq m hm hv, h]
      simp [ha.exec_eq _ hfit (by simpa using hv)]

/-- An access that makes one address valid and then has a fixed result is surveyed by its cell. -/
theorem surveys_cell {view : Nat → Int} {x : Access α} {a : Nat} {r : α}
    (h : ∀ m : Memory, m.size < addressSpace → m.read = view → x.exec m =
      if a + 1 < addressSpace then (.ok r, m.extend (a + 1))
      else (.error (.addressOutOfRange a), m)) :
    x.Surveys view (.cell a r) := by
  by_cases ha : a + 1 < addressSpace
  · simp only [Survey.cell, if_pos ha]
    refine ⟨ha, ?_⟩
    intro m hm hv
    rw [h m hm hv, if_pos ha]
  · simp only [Survey.cell, if_neg ha]
    refine ⟨by simp [addressSpace], ?_⟩
    intro m hm hv
    rw [h m hm hv, if_neg ha, Memory.extend_zero]

theorem surveys_ensure (a : Nat) : (Memory.ensure a).Surveys view (.cell a ()) := by
  apply surveys_cell
  intro m hm _
  exact Memory.exec_ensure a m hm

theorem surveys_load (a : Nat) : (Memory.load a).Surveys view (.cell a (view a)) := by
  apply surveys_cell
  intro m hm hv
  rw [Memory.exec_load a m hm, hv]

/-- An address that is made valid and then returned. -/
theorem surveys_ensure_return (a : Nat) :
    (do Memory.ensure a; return a : Access Nat).Surveys view (.cell a a) := by
  have h := (surveys_ensure view a).bind fun _ _ => surveys_pure view a
  rwa [Survey.cell_bind_pure] at h

/-- A loaded number is shifted and taken for an address, which is then made valid. -/
theorem surveys_resolve_load (location : Nat) (shift : Int → Int) :
    (do
      let a ← Memory.toAddress (shift (← Memory.load location))
      Memory.ensure a
      return a : Access Nat).Surveys view
        (Survey.cell location (shift (view location)) >>= fun v =>
          Survey.known (Memory.toAddress v) >>= fun a => Survey.cell a a) := by
  have h := (surveys_load view location).bind fun v _ => surveys_pure view (shift v)
  rw [Survey.cell_bind_pure] at h
  have hfind := h.bind fun v _ =>
    (surveys_known view (Memory.toAddress v)).bind fun a _ => surveys_ensure_return view a
  simpa only [bind_assoc, pure_bind] using hfind

/-- Finding the operand of a parameter reaches the parameter's own cell and the operand. -/
theorem surveys_resolve (mode : Mode) (location : Nat) (base : Int) :
    (Memory.resolve mode location base).Surveys view (.address view mode location base) := by
  cases mode with
  | immediate =>
      rw [Survey.address_immediate]
      exact surveys_ensure_return view location
  | position =>
      rw [Survey.address_eq_bind]
      exact surveys_resolve_load view location id
  | relative =>
      rw [Survey.address_eq_bind]
      exact surveys_resolve_load view location (· + base)

variable {m : Memory} {x : Access α} {s : Survey α}

/-- On a memory that has grown in the meantime, an access has the same result and makes memory as
large as both need it. -/
theorem Surveys.exec_extend (h : x.Surveys m.read s) (hfit : m.size < addressSpace) {n : Nat}
    (hn : n < addressSpace) : x.exec (m.extend n) = (s.result, m.extend (max n s.reach)) := by
  have hgrown := h.exec_eq (m.extend n) (Memory.size_extend_lt hfit hn) (m.read_extend_eq n)
  rw [hgrown, Memory.extend_extend]

/-- On a memory that has grown to its reach already, an access changes nothing. -/
theorem Surveys.exec_of_reached (h : x.Surveys m.read s) (hfit : m.size < addressSpace) {n : Nat}
    (hn : n < addressSpace) (hreach : s.reach ≤ n) :
    x.exec (m.extend n) = (s.result, m.extend n) := by
  rw [h.exec_extend hfit hn, Nat.max_eq_left hreach]

end Access

namespace Memory

/-- Two parameters may be resolved in either order, whether or not their cells overlap and whichever
of them fail: both orders give the same two results and leave the same memory. Resolved again, at
once or after the other, each parameter gives the same result and leaves memory as it is. The result
is an address exactly if memory can hold both the parameter's cell and the address that it denotes
at first. -/
theorem resolve_any_order (m : Memory) (base : Int) (mode₁ mode₂ : Mode)
    (location₁ location₂ : Nat) (hfit : m.size < addressSpace) :
    let first := resolve mode₁ location₁ base
    let second := resolve mode₂ location₂ base
    ∃ (r₁ r₂ : Except Fault Nat) (m₁ m₂ final : Memory),
      (first.exec m = (r₁, m₁) ∧ second.exec m₁ = (r₂, final)) ∧
      (second.exec m = (r₂, m₂) ∧ first.exec m₂ = (r₁, final)) ∧
      (first.exec m₁ = (r₁, m₁) ∧ second.exec m₂ = (r₂, m₂)) ∧
      (first.exec final = (r₁, final) ∧ second.exec final = (r₂, final)) ∧
      ∀ a : Nat,
        (r₁ = .ok a ↔ location₁ + 1 < addressSpace ∧ a + 1 < addressSpace ∧
          m.denoted mode₁ location₁ base = a) ∧
        (r₂ = .ok a ↔ location₂ + 1 < addressSpace ∧ a + 1 < addressSpace ∧
          m.denoted mode₂ location₂ base = a) := by
  intro first second
  let s₁ := Survey.address m.read mode₁ location₁ base
  let s₂ := Survey.address m.read mode₂ location₂ base
  have h₁ : first.Surveys m.read s₁ := Access.surveys_resolve m.read mode₁ location₁ base
  have h₂ : second.Surveys m.read s₂ := Access.surveys_resolve m.read mode₂ location₂ base
  have hboth : max s₁.reach s₂.reach < addressSpace := Nat.max_lt.mpr ⟨h₁.reach_lt, h₂.reach_lt⟩
  refine ⟨s₁.result, s₂.result, m.extend s₁.reach, m.extend s₂.reach,
    m.extend (max s₁.reach s₂.reach), ⟨?_, ?_⟩, ⟨?_, ?_⟩, ⟨?_, ?_⟩, ⟨?_, ?_⟩, ?_⟩
  · exact h₁.exec_eq m hfit rfl
  · exact h₂.exec_extend hfit h₁.reach_lt
  · exact h₂.exec_eq m hfit rfl
  · rw [Nat.max_comm]
    exact h₁.exec_extend hfit h₂.reach_lt
  · exact h₁.exec_of_reached hfit h₁.reach_lt (Nat.le_refl _)
  · exact h₂.exec_of_reached hfit h₂.reach_lt (Nat.le_refl _)
  · exact h₁.exec_of_reached hfit hboth (Nat.le_max_left _ _)
  · exact h₂.exec_of_reached hfit hboth (Nat.le_max_right _ _)
  · intro a
    rw [denoted_eq, denoted_eq]
    exact ⟨Survey.address_eq_ok, Survey.address_eq_ok⟩

/-- The second parameter stands in a cell that comes with the address of the first one, and what it
denotes is no address. -/
theorem resolve_any_order_overlap :
    let m := ofImage #[7, -3]
    let grown := ofImage #[7, -3, 0, 0, 0, 0, 0, 0]
    let first := resolve .position 0 (-1)
    let second := resolve .relative 7 (-1)
    (first.exec m = (.ok 7, grown) ∧
      second.exec grown = (.error (.negativeAddress (-1)), grown)) ∧
    (second.exec m = (.error (.negativeAddress (-1)), grown) ∧
      first.exec grown = (.ok 7, grown)) := by
  intro m grown first second
  have hr₁ : first.exec m = (.ok 7, grown) := rfl
  have hr₂ : second.exec m = (.error (.negativeAddress (-1)), grown) := rfl
  obtain ⟨r₁, r₂, m₁, m₂, final, ⟨hfirst, -⟩, ⟨hsecond, -⟩, ⟨hagain₁, hagain₂⟩, -⟩ :=
    resolve_any_order m (-1) .position .relative 0 7 (by decide)
  cases hr₁.symm.trans hfirst
  cases hr₂.symm.trans hsecond
  exact ⟨⟨hr₁, hagain₂⟩, hr₂, hagain₁⟩

end Memory

end Intcode
