import Intcode.Network.Pool
import Intcode.Proofs.Network.Locality
import Intcode.Proofs.Network.Rest

/-!
# Pools

The machines of a pool work side by side, and each of them reports once, when its call has come to
an end. Whatever the order in which the reports arrive, the pool answers with the first failure, or
else with the last output of every machine under its name, where of several machines with one name
the last to arrive counts. So the order matters only between machines of one name, and between
several failures.
-/

namespace Intcode

/-- Enter outputs under their names, one after the other. -/
def tally (pairs : List (String × Int)) : Outputs :=
  pairs.foldl (fun outputs p => outputs.insert p.1 p.2) ∅

theorem tally_append (pairs : List (String × Int)) (p : String × Int) :
    tally (pairs ++ [p]) = (tally pairs).insert p.1 p.2 :=
  List.foldl_append

theorem getElem?_tally_append (pairs : List (String × Int)) (p : String × Int) (name : String) :
    (tally (pairs ++ [p]))[name]? = if p.1 = name then some p.2 else (tally pairs)[name]? := by
  simp only [tally_append, Std.ExtTreeMap.getElem?_insert, Std.LawfulEqCmp.compare_eq_iff_eq]

/-- The names with an output are those under which one was entered. -/
theorem mem_tally {pairs : List (String × Int)} {name : String} :
    name ∈ tally pairs ↔ ∃ p ∈ pairs, p.1 = name := by
  induction pairs using List.reverseRecOn with
  | nil => simp [tally]
  | append_singleton pairs p ih =>
      rw [← Std.ExtTreeMap.isSome_getElem?_iff_mem, getElem?_tally_append]
      by_cases h : p.1 = name
      · simp [h]
      · rw [if_neg h, Std.ExtTreeMap.isSome_getElem?_iff_mem, ih]
        simp [h]

/-- An output stays under its name until another one is entered there. -/
theorem getElem?_tally_last {before after : List (String × Int)} {name : String} {v : Int}
    (h : ∀ p ∈ after, p.1 ≠ name) : (tally (before ++ (name, v) :: after))[name]? = some v := by
  induction after using List.reverseRecOn with
  | nil => rw [getElem?_tally_append, if_pos rfl]
  | append_singleton after p ih =>
      have hp : p.1 ≠ name := h p (by simp)
      rw [← List.cons_append, ← List.append_assoc, getElem?_tally_append, if_neg hp]
      exact ih fun q hq => h q (List.mem_append_left _ hq)

/-- Where the outputs under one name agree, they are the ones that were entered. -/
theorem getElem?_tally_iff {pairs : List (String × Int)}
    (hagree : ∀ p ∈ pairs, ∀ q ∈ pairs, p.1 = q.1 → p.2 = q.2) {name : String} {v : Int} :
    (tally pairs)[name]? = some v ↔ (name, v) ∈ pairs := by
  induction pairs using List.reverseRecOn with
  | nil => simp [tally]
  | append_singleton pairs p ih =>
      have hpairs := @ih fun a ha b hb =>
        hagree a (List.mem_append_left _ ha) b (List.mem_append_left _ hb)
      rw [getElem?_tally_append]
      by_cases h : p.1 = name
      · have hunique (hmem : (name, v) ∈ pairs) : p.2 = v :=
          hagree p (by simp) (name, v) (List.mem_append_left _ hmem) h
        have hp : (name, v) = p ↔ p.2 = v := by
          rw [Prod.ext_iff, h]
          simp [eq_comm]
        rw [if_pos h, Option.some.injEq, List.mem_append, List.mem_singleton, hp]
        exact ⟨.inr, fun hor => hor.elim hunique id⟩
      · have hp : (name, v) ≠ p := fun e => h (congrArg Prod.fst e.symm)
        rw [if_neg h, hpairs, List.mem_append, List.mem_singleton]
        exact ⟨.inl, fun hor => hor.resolve_right hp⟩

/-- Where the outputs under one name agree, they can be entered in any order. -/
theorem tally_perm {pairs pairs' : List (String × Int)} (hperm : pairs.Perm pairs')
    (hagree : ∀ p ∈ pairs, ∀ q ∈ pairs, p.1 = q.1 → p.2 = q.2) : tally pairs' = tally pairs := by
  have hagree' : ∀ p ∈ pairs', ∀ q ∈ pairs', p.1 = q.1 → p.2 = q.2 :=
    fun p hp q hq => hagree p (hperm.mem_iff.mpr hp) q (hperm.mem_iff.mpr hq)
  refine Std.ExtTreeMap.ext_getElem? fun name => Option.ext fun v => ?_
  rw [getElem?_tally_iff hagree, getElem?_tally_iff hagree', hperm.mem_iff]

/-- Results that are all outputs are entered one after the other. -/
theorem collect_outputs (pairs : List (String × Int)) :
    collect (pairs.map .ok) = .ok (tally pairs) := by
  induction pairs using List.reverseRecOn with
  | nil => rfl
  | append_singleton pairs p ih =>
      rw [collect] at ih ⊢
      rw [List.map_append, List.foldlM_append, ih, tally_append]
      rfl

theorem exists_outputs {arrivals : List Arrival} (h : ∀ r ∈ arrivals, r.isOk = true) :
    ∃ pairs : List (String × Int), arrivals = pairs.map .ok := by
  induction arrivals with
  | nil => exact ⟨[], rfl⟩
  | cons r rest ih =>
      obtain ⟨pairs, rfl⟩ := ih fun r' hr' => h r' (List.mem_cons_of_mem r hr')
      cases r with
      | ok p => exact ⟨p :: pairs, rfl⟩
      | error e => cases h (.error e) List.mem_cons_self

/-- Nothing that arrives behind the first failure counts. -/
theorem collect_failure {before : List Arrival} (h : ∀ r ∈ before, r.isOk = true) (e : Failure)
    (after : List Arrival) : collect (before ++ .error e :: after) = .error e := by
  obtain ⟨pairs, rfl⟩ := exists_outputs h
  have hbefore := collect_outputs pairs
  rw [collect] at hbefore ⊢
  rw [List.foldlM_append, hbefore]
  rfl

/-- The call of a machine can end with this result, given the right values to take. -/
def Machine.Gives (m : Machine) (r : Arrival) : Prop :=
  ∃ inputs limit, ((Network.solo m inputs []).call ⟨0, Nat.one_pos⟩ limit).1 = .inl r

namespace Network

variable {n k : Nat}

/-- An answer depends neither on what waits where the machine sends to nor on how many steps count
as made before. -/
theorem verdict_runFrom_solo {m : Machine} {inputs outputs : List Int} {made fuel : Nat}
    {r : Arrival}
    (h : (runFrom 0 made fuel (solo m inputs outputs)).2.verdict 0
      (runFrom 0 made fuel (solo m inputs outputs)).1 = .inl r) (outputs' : List Int)
    (made' : Nat) :
    (runFrom 0 made' fuel (solo m inputs outputs')).2.verdict 0
      (runFrom 0 made' fuel (solo m inputs outputs')).1 = .inl r := by
  induction fuel generalizing m inputs outputs made outputs' made' with
  | zero =>
      simp only [runFrom, solo_machine, solo_waits] at h ⊢
      split at h
      · next hhalted =>
        rw [if_pos hhalted]
        exact h
      · split at h <;> cases h
  | succ fuel ih =>
      simp only [runFrom, solo_machine, solo_waits, solo_step] at h ⊢
      split at h
      · next hhalted =>
        rw [if_pos hhalted]
        exact h
      · next hhalted =>
        rw [if_neg hhalted]
        split at h
        · cases h
        · next hwaits =>
          rw [if_neg hwaits]
          cases ho : (m.step inputs.head?).1 with
          | failed fault =>
              rw [ho] at h
              exact h
          | executed _ _ | idle | waiting =>
              rw [ho] at h
              exact ih h _ _

end Network

namespace Machine

variable {m : Machine} {front : Option Int} {r : Arrival}

theorem gives_iff :
    m.Gives r ↔ ∃ inputs limit, ((Network.solo m inputs []).call 0 limit).1 = .inl r :=
  Iff.rfl

/-- A result carries the name of its machine, whether it is an output or a failure. -/
theorem Gives.named (h : m.Gives r) :
    (∃ v, r = .ok (m.name, v)) ∨ ∃ fault, r = .error ⟨m.name, fault⟩ := by
  obtain ⟨inputs, limit, h⟩ := gives_iff.mp h
  have hname := ((Network.sameMakeup_run (Network.solo m inputs []) 0 limit).machine 0).1
  rw [Network.solo_machine] at hname
  simp only [Network.call] at h
  cases hstop : ((Network.solo m inputs []).run 0 limit).1 with
  | halted =>
      rw [hstop, Network.verdict, Sum.inl.injEq, result, hname] at h
      generalize (((Network.solo m inputs []).run 0 limit).2.machines.get 0).diagnostics = sent at h
      cases hlast : sent.back? with
      | some v => exact .inl ⟨v, by rw [← h, hlast]⟩
      | none => exact .inr ⟨.noOutput, by rw [← h, hlast]⟩
  | failed fault =>
      rw [hstop, Network.verdict, Sum.inl.injEq, hname] at h
      exact .inr ⟨fault, h.symm⟩
  | blocked steps | exhausted steps =>
      rw [hstop] at h
      cases h

/-- A machine that has halted gives its result. -/
theorem gives_of_halted (h : m.state.halted = true) : m.Gives m.result := by
  refine gives_iff.mpr ⟨[], 0, ?_⟩
  rw [Network.call, @Network.run_of_halted 1 2 (.solo m [] []) 0 h]
  rfl

/-- A machine that fails gives the fault, whatever it finds on its input channel. -/
theorem gives_of_failed {fault : Fault} (hfit : m.Fits) (hrunning : m.state.halted = false)
    (h : (m.step front).1 = .failed fault) : m.Gives (.error ⟨m.name, fault⟩) := by
  have hnone : m.step none = m.step front := by
    have hs := step_of_taken hfit (by rw [h]; simp) []
    rwa [h] at hs
  have hawaits : m.state.awaitsInput = false := by
    rw [Bool.eq_false_iff]
    intro hawaits
    obtain ⟨hhalted, hfaulted, -⟩ := m.state.awaitsInput_iff.mp hawaits
    have hwaiting : m.step none = (.waiting, m) := by
      simp [step, hhalted, hfaulted, hawaits]
    rw [← hnone, hwaiting] at h
    cases h
  refine gives_iff.mpr ⟨[], 1, ?_⟩
  simp only [Network.call, Network.run, Network.runFrom, Network.solo_machine,
    Network.solo_waits, Network.solo_step, List.head?_nil, hnone, h, hrunning, hawaits,
    Bool.and_false, Bool.false_eq_true, if_false, Network.verdict, (m.makeup_step front).1]

/-- What a machine gives after a step that does not fail, it gives before it: the value that the
step takes is put in front of the others. -/
theorem Gives.of_step (hfit : m.Fits) (hok : ∀ fault, (m.step front).1 ≠ .failed fault)
    (h : (m.step front).2.Gives r) : m.Gives r := by
  by_cases hr : m.Ready front
  · obtain ⟨inputs, limit, h⟩ := gives_iff.mp h
    have hmade : (m.step front).1 ≠ .waiting := by
      intro hwaiting
      have hinstruction := isInstruction_step.mpr hr
      rw [hwaiting] at hinstruction
      cases hinstruction
    have hs := step_of_taken hfit hmade inputs
    refine gives_iff.mpr ⟨(m.step front).1.taken ++ inputs, limit + 1, ?_⟩
    have hwaits : (((m.step front).1.taken ++ inputs).head?.isNone && m.state.awaitsInput) =
        false := by
      have hready : m.Ready ((m.step front).1.taken ++ inputs).head? := by
        rw [← isInstruction_step, hs]
        exact isInstruction_step.mpr hr
      exact hready.2.2
    simp only [Network.call, Network.run, Network.runFrom, Network.solo_machine,
      Network.solo_waits, Network.solo_step, hs, hr.2.1, hwaits, Bool.false_eq_true, if_false,
      List.drop_left]
    have hrest := Network.verdict_runFrom_solo h ([] ++ (m.step front).1.sent) 1
    cases ho : (m.step front).1 with
    | failed fault => exact absurd ho (hok fault)
    | executed _ _ | idle | waiting =>
        rw [ho] at hrest
        exact hrest
  · rwa [(stays_of_not_ready hr).1] at h

end Machine

namespace Network

variable {n k : Nat}

/-- Everything that a turn can do: report the result of a machine that has halted, report a step
that fails, or make a step. -/
theorem turn_cases (net : Network n k) (i : Fin n) :
    ((net.machines.get i).state.halted = true ∧
      net.turn i = (some (net.machines.get i).result, net)) ∨
    ((net.machines.get i).state.halted = false ∧
      ((∃ fault, (net.stepped i).1 = .failed fault ∧
          net.turn i = (some (.error ⟨(net.machines.get i).name, fault⟩), (net.step i).2)) ∨
        (∀ fault, (net.stepped i).1 ≠ .failed fault) ∧ net.turn i = (none, (net.step i).2))) := by
  unfold turn
  by_cases hhalted : (net.machines.get i).state.halted = true
  · exact .inl ⟨hhalted, if_pos hhalted⟩
  · refine .inr ⟨Bool.eq_false_iff.mpr hhalted, ?_⟩
    have houtcome := step_outcome net i
    have hname := ((sameMakeup_step net i).machine i).1
    rw [if_neg hhalted]
    generalize net.step i = s at houtcome hname
    obtain ⟨outcome, net'⟩ := s
    cases outcome with
    | failed fault => exact .inl ⟨fault, houtcome.symm, by simp only [hname]⟩
    | executed _ _ | idle | waiting =>
        refine .inr ⟨?_, rfl⟩
        intro fault hfailed
        rw [← houtcome] at hfailed
        cases hfailed

section
variable {net net' : Network n k} {i j : Fin n} {r : Arrival} {report : Option Arrival}

/-- A turn leaves all as it is, or it leaves what a step leaves. -/
theorem turn_network (h : net.turn i = (report, net')) : net' = net ∨ net' = (net.step i).2 := by
  rcases turn_cases net i with ⟨-, hturn⟩ | ⟨-, ⟨fault, -, hturn⟩ | ⟨-, hturn⟩⟩ <;>
    obtain ⟨-, rfl⟩ := Prod.mk.inj (hturn.symm.trans h)
  · exact .inl rfl
  · exact .inr rfl
  · exact .inr rfl

theorem fits_turn (hfit : net.Fits) (h : net.turn i = (report, net')) : net'.Fits := by
  rcases turn_network h with rfl | rfl
  · exact hfit
  · exact hfit.step i

theorem turn_machine_of_ne (h : net.turn i = (report, net')) (hij : i ≠ j) :
    net'.machines.get j = net.machines.get j := by
  rcases turn_network h with rfl | rfl
  · rfl
  · exact step_machine_of_ne net hij

/-- What a turn reports is a result of the call. -/
theorem gives_of_report (hfit : net.Fits) (h : net.turn i = (some r, net')) :
    (net.machines.get i).Gives r := by
  rcases turn_cases net i with
      ⟨hhalted, hturn⟩ | ⟨hrunning, ⟨fault, hfailed, hturn⟩ | ⟨-, hturn⟩⟩ <;>
    cases hturn.symm.trans h
  · exact Machine.gives_of_halted hhalted
  · exact Machine.gives_of_failed (hfit i) hrunning hfailed

/-- A turn without a report does not change what the call can give. -/
theorem gives_of_work (hfit : net.Fits) (h : net.turn i = (none, net'))
    (hgives : (net'.machines.get i).Gives r) : (net.machines.get i).Gives r := by
  rcases turn_cases net i with ⟨-, hturn⟩ | ⟨-, ⟨fault, -, hturn⟩ | ⟨hok, hturn⟩⟩ <;>
    cases hturn.symm.trans h
  rw [step_machine_self] at hgives
  exact hgives.of_step (hfit i) hok

end

/-- The pending machines take turns in any order, and those that come to an end report. -/
inductive Turns : List (Fin n) → Network n k → List (Fin n × Arrival) → List (Fin n) →
    Network n k → Prop
  | done (pending : List (Fin n)) (net : Network n k) : Turns pending net [] pending net
  | work {pending pending' : List (Fin n)} {net net' final : Network n k} {i : Fin n}
      {reports : List (Fin n × Arrival)} (mem : i ∈ pending) (turn : net.turn i = (none, net'))
      (rest : Turns pending net' reports pending' final) :
      Turns pending net reports pending' final
  | report {before after pending' : List (Fin n)} {net net' final : Network n k} {i : Fin n}
      {r : Arrival} {reports : List (Fin n × Arrival)} (turn : net.turn i = (some r, net'))
      (rest : Turns (before ++ after) net' reports pending' final) :
      Turns (before ++ i :: after) net ((i, r) :: reports) pending' final

/-- Results of machines of a network, each of them at most once, in the order of their arrival. -/
structure Reports (net : Network n k) (reports : List (Fin n × Arrival)) : Prop where
  nodup : (reports.map Prod.fst).Nodup
  /-- The call of the machine ends with this result. -/
  gives : ∀ p ∈ reports, (net.machines.get p.1).Gives p.2

/-- The name of a machine and the value that it reports. -/
def entry (net : Network n k) (p : Fin n × Arrival) : String × Int :=
  ((net.machines.get p.1).name, (p.2.toOption.map Prod.snd).getD 0)

namespace Turns

variable {pending pending' pending'' : List (Fin n)} {net net' final : Network n k}
  {reports reports' : List (Fin n × Arrival)}

theorem trans (first : Turns pending net reports pending' net')
    (rest : Turns pending' net' reports' pending'' final) :
    Turns pending net (reports ++ reports') pending'' final := by
  induction first with
  | done pending net => exact rest
  | work mem turn _ ih => exact .work mem turn (ih rest)
  | report turn _ ih => exact .report turn (ih rest)

/-- A machine has reported or is still pending. -/
theorem perm (h : Turns pending net reports pending' final) :
    (reports.map Prod.fst ++ pending').Perm pending := by
  induction h with
  | done pending net => exact .refl _
  | work mem turn _ ih => exact ih
  | @report before after pending' net net' final i r reports turn _ ih =>
      exact (ih.cons i).trans List.perm_middle.symm

/-- What is reported is what the call of the machine gives. -/
theorem gives (h : Turns pending net reports pending' final) (hfit : net.Fits)
    (hpending : pending.Nodup) : ∀ p ∈ reports, (net.machines.get p.1).Gives p.2 := by
  induction h with
  | done pending net => exact nofun
  | @work pending pending' net net' final i reports mem turn _ ih =>
      intro p hp
      have hgives := ih (fits_turn hfit turn) hpending p hp
      by_cases hpi : i = p.1
      · subst hpi
        exact gives_of_work hfit turn hgives
      · rwa [turn_machine_of_ne turn hpi] at hgives
  | @report before after pending' net net' final i r reports turn rest ih =>
      have hnodup := List.perm_middle.nodup_iff.mp hpending
      rw [List.nodup_cons] at hnodup
      intro p hp
      rcases List.mem_cons.mp hp with rfl | hlater
      · exact gives_of_report hfit turn
      · -- The machine that reports takes no further turn, and the others are not changed by it.
        have hpi : i ≠ p.1 := by
          rintro rfl
          exact hnodup.1 (rest.perm.subset
            (List.mem_append_left _ (List.mem_map_of_mem hlater)))
        have hgives := ih (fits_turn hfit turn) hnodup.2 p hlater
        rwa [turn_machine_of_ne turn hpi] at hgives

theorem toReports (h : Turns pending net reports pending' final) (hfit : net.Fits)
    (hpending : pending.Nodup) : net.Reports reports where
  nodup := (List.nodup_append.mp (h.perm.nodup_iff.mpr hpending)).1
  gives := h.gives hfit hpending

end Turns

namespace Reports

variable {net : Network n k} {reports reports' : List (Fin n × Arrival)}

theorem named (h : net.Reports reports) {i : Fin n} {r : Arrival} (hmem : (i, r) ∈ reports) :
    (∃ v, r = .ok ((net.machines.get i).name, v)) ∨
      ∃ fault, r = .error ⟨(net.machines.get i).name, fault⟩ :=
  (h.gives (i, r) hmem).named

theorem of_perm (h : net.Reports reports) (hperm : reports.Perm reports') :
    net.Reports reports' where
  nodup := (hperm.map Prod.fst).nodup_iff.mp h.nodup
  gives p hp := h.gives p (hperm.mem_iff.mpr hp)

theorem eq_ok_entry (h : net.Reports reports) {p : Fin n × Arrival} (hp : p ∈ reports)
    (hok : p.2.isOk = true) : p.2 = .ok (net.entry p) := by
  obtain ⟨i, r⟩ := p
  rcases h.named hp with ⟨v, rfl⟩ | ⟨fault, rfl⟩
  · rfl
  · cases hok

/-- Reports without a failure are entered under the names of their machines. -/
theorem collect_entries (h : net.Reports reports) (hok : ∀ p ∈ reports, p.2.isOk = true) :
    collect (reports.map Prod.snd) = .ok (tally (reports.map net.entry)) := by
  rw [← collect_outputs, List.map_map]
  congr 1
  exact List.map_congr_left fun p hp => h.eq_ok_entry hp (hok p hp)

/-- Reports without a failure are collected under the names of their machines, and the last one of
each name is kept. -/
theorem outputs (h : net.Reports reports) (hok : ∀ p ∈ reports, p.2.isOk = true) :
    ∃ outputs, collect (reports.map Prod.snd) = .ok outputs ∧
      (∀ name, name ∈ outputs ↔ ∃ p ∈ reports, (net.machines.get p.1).name = name) ∧
      ∀ before i r after, reports = before ++ (i, r) :: after →
        (∀ p ∈ after, (net.machines.get p.1).name ≠ (net.machines.get i).name) →
        ∃ v, r = .ok ((net.machines.get i).name, v) ∧
          outputs[(net.machines.get i).name]? = some v := by
  refine ⟨tally (reports.map net.entry), h.collect_entries hok, ?_, ?_⟩
  · intro name
    simp only [mem_tally, List.mem_map, exists_exists_and_eq_and]
    rfl
  · rintro before i r after rfl hlast
    have hmem : (i, r) ∈ before ++ (i, r) :: after := by simp
    refine ⟨(net.entry (i, r)).2, h.eq_ok_entry hmem (hok _ hmem), ?_⟩
    rw [List.map_append, List.map_cons]
    apply getElem?_tally_last
    intro q hq
    obtain ⟨p, hp, rfl⟩ := List.mem_map.mp hq
    exact hlast p hp

/-- If a machine fails, the first failure to arrive is the answer. -/
theorem failure (h : net.Reports reports) (hfail : ∃ p ∈ reports, p.2.isOk = false) :
    ∃ before i fault after,
      reports = before ++ (i, .error ⟨(net.machines.get i).name, fault⟩) :: after ∧
      (∀ p ∈ before, p.2.isOk = true) ∧
      collect (reports.map Prod.snd) = .error ⟨(net.machines.get i).name, fault⟩ := by
  have hfind : (reports.find? fun p => !p.2.isOk).isSome = true := by
    obtain ⟨p, hp, hpfail⟩ := hfail
    exact List.find?_isSome.mpr ⟨p, hp, by simp [hpfail]⟩
  obtain ⟨⟨i, r⟩, hfirst⟩ := Option.isSome_iff_exists.mp hfind
  obtain ⟨hr, before, after, heq, hbefore⟩ := List.find?_eq_some_iff_append.mp hfirst
  subst heq
  rcases h.named (i := i) (r := r) (by simp) with ⟨v, rfl⟩ | ⟨fault, rfl⟩
  · cases hr
  · have hok : ∀ p ∈ before, p.2.isOk = true := fun p hp => by simpa using hbefore p hp
    refine ⟨before, i, fault, after, rfl, hok, ?_⟩
    rw [List.map_append, List.map_cons]
    apply collect_failure
    intro r hr
    obtain ⟨p, hp, rfl⟩ := List.mem_map.mp hr
    exact hok p hp

/-- If machines of one name have the same last output and at most one machine fails, the order of
arrival does not matter. -/
theorem collect_eq_of_perm (h : net.Reports reports) (hperm : reports.Perm reports')
    (hagree : ∀ i j a b v w, (net.machines.get i).name = (net.machines.get j).name →
      (i, .ok (a, v)) ∈ reports → (j, .ok (b, w)) ∈ reports → v = w)
    (hone : ∀ p ∈ reports, ∀ q ∈ reports, p.2.isOk = false → q.2.isOk = false → p = q) :
    collect (reports'.map Prod.snd) = collect (reports.map Prod.snd) := by
  have h' := h.of_perm hperm
  by_cases hfail : ∃ p ∈ reports, p.2.isOk = false
  · have hfail' : ∃ p ∈ reports', p.2.isOk = false := by
      obtain ⟨p, hp, hpfail⟩ := hfail
      exact ⟨p, hperm.mem_iff.mp hp, hpfail⟩
    obtain ⟨before, i, fault, after, heq, -, hcollect⟩ := h.failure hfail
    obtain ⟨before', i', fault', after', heq', -, hcollect'⟩ := h'.failure hfail'
    have hsame := hone (i, .error ⟨(net.machines.get i).name, fault⟩) (by simp [heq])
      (i', .error ⟨(net.machines.get i').name, fault'⟩)
      (hperm.mem_iff.mpr (by simp [heq'])) rfl rfl
    rw [hcollect, hcollect', Except.error.inj (congrArg Prod.snd hsame)]
  · have hok : ∀ p ∈ reports, p.2.isOk = true := by
      intro p hp
      by_contra hpfail
      exact hfail ⟨p, hp, Bool.eq_false_iff.mpr hpfail⟩
    rw [h.collect_entries hok, h'.collect_entries fun p hp => hok p (hperm.mem_iff.mpr hp)]
    refine congrArg Except.ok (tally_perm (hperm.map net.entry) ?_)
    simp only [List.forall_mem_map]
    intro p hp q hq hname
    apply hagree p.1 q.1 _ _ _ _ hname
    · rw [← h.eq_ok_entry hp (hok p hp)]
      exact hp
    · rw [← h.eq_ok_entry hq (hok q hq)]
      exact hq

end Reports

/-- A round gives each machine on its list a turn. -/
theorem turns_round (todo kept : List (Fin n)) (net : Network n k) :
    ∃ reports, Turns (kept ++ todo) net reports (kept ++ (round todo net).1.1) (round todo net).2 ∧
      (round todo net).1.2 = reports.map Prod.snd := by
  induction todo generalizing kept net with
  | nil => exact ⟨[], .done _ _, rfl⟩
  | cons i rest ih =>
      rw [round]
      rcases hturn : net.turn i with ⟨_ | r, net'⟩
      · obtain ⟨reports, hturns, harrived⟩ := ih (kept ++ [i]) net'
        simp only [List.append_assoc, List.singleton_append] at hturns
        exact ⟨reports, .work (by simp) hturn hturns, harrived⟩
      · obtain ⟨reports, hturns, harrived⟩ := ih kept net'
        exact ⟨(i, r) :: reports, .report hturn hturns, congrArg (r :: ·) harrived⟩

/-- Going round the pending machines is one of the orders in which they can take turns. -/
theorem turns_settle (fuel : Nat) (pending : List (Fin n)) (arrivals : List Arrival)
    (net : Network n k) :
    ∃ reports pending', Turns pending net reports pending' (settle fuel pending arrivals net).2 ∧
      (settle fuel pending arrivals net).1 = arrivals ++ reports.map Prod.snd := by
  induction fuel generalizing pending arrivals net with
  | zero => exact ⟨[], pending, .done _ _, (List.append_nil _).symm⟩
  | succ fuel ih =>
      rw [settle]
      split
      · exact ⟨[], pending, .done _ _, (List.append_nil _).symm⟩
      · obtain ⟨reports, hturns, harrived⟩ := turns_round pending [] net
        generalize net.round pending = s at hturns harrived
        obtain ⟨⟨pending', arrived⟩, net'⟩ := s
        simp only [List.nil_append] at hturns harrived
        subst harrived
        simp only
        split
        · exact ⟨reports, pending', hturns, rfl⟩
        · obtain ⟨more, pending'', hmore, hall⟩ :=
            ih pending' (arrivals ++ reports.map Prod.snd) net'
          refine ⟨reports ++ more, pending'', hturns.trans hmore, ?_⟩
          rw [hall, List.map_append, List.append_assoc]

/-- Running all machines in turn has an answer exactly if all of them have reported or one of them
has failed, and the answer is what the reports come to. -/
theorem turns_runAll (fuel : Nat) (net : Network n k) :
    ∃ reports pending, Turns (List.finRange n) net reports pending (net.runAll fuel).2 ∧
      ((pending = [] ∨ ∃ p ∈ reports, p.2.isOk = false) →
        (net.runAll fuel).1 = some (collect (reports.map Prod.snd))) ∧
      (pending ≠ [] → (∀ p ∈ reports, p.2.isOk = true) → (net.runAll fuel).1 = none) := by
  obtain ⟨reports, pending, hturns, harrived⟩ := turns_settle fuel (List.finRange n) [] net
  rw [List.nil_append] at harrived
  have hlength : reports.length + pending.length = n := by
    simpa using hturns.perm.length_eq
  refine ⟨reports, pending, hturns, ?_, ?_⟩
  · intro hdone
    simp only [runAll, harrived]
    refine if_pos ?_
    rw [Bool.or_eq_true]
    rcases hdone with rfl | ⟨p, hp, hfail⟩
    · exact .inl (by simpa using hlength)
    · exact .inr (List.any_eq_true.mpr ⟨p.2, List.mem_map_of_mem hp, by simp [hfail]⟩)
  · intro hpending hok
    have hsome : 0 < pending.length := List.length_pos_iff.mpr hpending
    simp only [runAll, harrived]
    refine if_neg ?_
    rw [Bool.or_eq_true, not_or]
    constructor
    · rw [decide_eq_true_eq, List.length_map]
      omega
    · intro hany
      obtain ⟨r, hr, hfail⟩ := List.any_eq_true.mp hany
      obtain ⟨p, hp, rfl⟩ := List.mem_map.mp hr
      simp [hok p hp] at hfail

/-- Whatever the order in which the machines of a pool report the results of their calls: without
failures, the answer has the names of the machines as its keys, each with the last output of the
machine of that name that reports last; otherwise it is the first failure to arrive, which names a
machine that failed. The order does not matter if machines of one name agree and at most one fails.
However the machines take turns, they report results of their calls, each machine at most once; and
running all in turn collects such reports, and has an answer exactly if all machines have reported
or one of them has failed. -/
theorem runAll_collects (net : Network n k) (hfit : net.Fits) :
    (∀ reports, net.Reports reports → (∀ i, i ∈ reports.map Prod.fst) →
      (∀ p ∈ reports, p.2.isOk = true) →
      ∃ outputs, collect (reports.map Prod.snd) = .ok outputs ∧
        (∀ name, name ∈ outputs ↔ ∃ i, (net.machines.get i).name = name) ∧
        ∀ before i r after, reports = before ++ (i, r) :: after →
          (∀ p ∈ after, (net.machines.get p.1).name ≠ (net.machines.get i).name) →
          ∃ v, r = .ok ((net.machines.get i).name, v) ∧
            outputs[(net.machines.get i).name]? = some v) ∧
    (∀ reports, net.Reports reports → (∃ p ∈ reports, p.2.isOk = false) →
      ∃ before i fault after,
        reports = before ++ (i, .error ⟨(net.machines.get i).name, fault⟩) :: after ∧
        (∀ p ∈ before, p.2.isOk = true) ∧
        collect (reports.map Prod.snd) = .error ⟨(net.machines.get i).name, fault⟩) ∧
    (∀ reports reports', net.Reports reports → reports.Perm reports' →
      (∀ i j a b v w, (net.machines.get i).name = (net.machines.get j).name →
        (i, .ok (a, v)) ∈ reports → (j, .ok (b, w)) ∈ reports → v = w) →
      (∀ p ∈ reports, ∀ q ∈ reports, p.2.isOk = false → q.2.isOk = false → p = q) →
      collect (reports'.map Prod.snd) = collect (reports.map Prod.snd)) ∧
    (n = 0 → ∀ fuel, net.runAll fuel = (some (.ok ∅), net)) ∧
    (∀ reports pending final, Turns (List.finRange n) net reports pending final →
      net.Reports reports ∧ (reports.map Prod.fst ++ pending).Perm (List.finRange n)) ∧
    ∀ fuel, ∃ reports pending, Turns (List.finRange n) net reports pending (net.runAll fuel).2 ∧
      ((pending = [] ∨ ∃ p ∈ reports, p.2.isOk = false) →
        (net.runAll fuel).1 = some (collect (reports.map Prod.snd))) ∧
      (pending ≠ [] → (∀ p ∈ reports, p.2.isOk = true) → (net.runAll fuel).1 = none) := by
  refine ⟨?_, ?_, ?_, ?_, ?_, ?_⟩
  · intro reports h hall hok
    obtain ⟨outputs, hcollect, hnames, hlast⟩ := h.outputs hok
    refine ⟨outputs, hcollect, ?_, hlast⟩
    intro name
    rw [hnames]
    constructor
    · rintro ⟨p, -, hname⟩
      exact ⟨p.1, hname⟩
    · rintro ⟨i, hname⟩
      obtain ⟨p, hp, rfl⟩ := List.mem_map.mp (hall i)
      exact ⟨p, hp, hname⟩
  · intro reports h hfail
    exact h.failure hfail
  · intro reports reports' h hperm hagree hone
    exact h.collect_eq_of_perm hperm hagree hone
  · rintro rfl fuel
    cases fuel with
    | zero => rfl
    | succ fuel => rfl
  · intro reports pending final h
    exact ⟨h.toReports hfit (List.nodup_finRange n), h.perm⟩
  · intro fuel
    exact turns_runAll fuel net

/-- Two machines of one name and a third one. -/
def namesakes : Network 3 6 :=
  assemble (Vector.replicate 0 .empty)
    #v[⟨.echo, { name := "a", inputs := [7] }⟩, ⟨.echo, { name := "a", inputs := [8] }⟩,
      ⟨.largeLiteral, { name := "b" }⟩]

/-- Of the two namesakes, the one that arrives last counts. -/
theorem runAll_collects_namesakes :
    let reports : List (Fin 3 × Arrival) :=
      [(1, .ok ("a", 8)), (2, .ok ("b", 1125899906842624)), (0, .ok ("a", 7))]
    namesakes.Reports reports ∧
    (∃ outputs, collect (reports.map Prod.snd) = .ok outputs ∧ outputs["a"]? = some 7) ∧
    ∃ arrived pending, Turns (List.finRange 3) namesakes arrived pending (namesakes.runAll 10).2 ∧
      (namesakes.runAll 10).1 = some (collect (arrived.map Prod.snd)) := by
  intro reports
  have hfit : ∀ i : Fin 3, (namesakes.machines.get i).state.memory.size < addressSpace := by
    decide +kernel
  have hreports : namesakes.Reports reports := by
    refine ⟨by decide, ?_⟩
    simp only [reports, List.forall_mem_cons, List.not_mem_nil, false_implies, implies_true,
      and_true]
    exact ⟨⟨[8], 5, by decide +kernel⟩, ⟨[], 5, by decide +kernel⟩, ⟨[7], 5, by decide +kernel⟩⟩
  obtain ⟨houtputs, -, -, -, -, hrun⟩ := runAll_collects namesakes hfit
  obtain ⟨outputs, hcollect, -, hlast⟩ := houtputs reports hreports (by decide) (by decide)
  obtain ⟨v, hv, hname⟩ := hlast (reports.take 2) 0 (.ok ("a", 7)) [] rfl nofun
  have ha : (namesakes.machines.get 0).name = "a" := by decide +kernel
  rw [ha] at hv hname
  cases hv
  obtain ⟨arrived, pending, hturns, hanswer, hnone⟩ := hrun 10
  refine ⟨hreports, ⟨outputs, hcollect, hname⟩, arrived, pending, hturns, hanswer ?_⟩
  -- There is an answer, so it is not the case that a machine is pending and none has failed.
  have hsome : (namesakes.runAll 10).1 ≠ none := by decide +kernel
  by_contra hdone
  simp only [not_or, not_exists, not_and, Bool.not_eq_false] at hdone
  exact hsome (hnone hdone.1 hdone.2)

end Network

end Intcode
