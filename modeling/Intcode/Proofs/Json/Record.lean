import Intcode.Json
import Mathlib.Data.List.Forall2

/-!
# Values read as what they denote

The values that are read as a list of things, as a number or as a record. The fields of a record may
come in any order and with others between them, provided that none of those named comes twice.
-/

namespace Intcode.Json

theorem mapM_eq_some {α β : Type} {f : α → Option β} {xs : List α} {ys : List β} :
    xs.mapM f = some ys ↔ List.Forall₂ (fun x y => f x = some y) xs ys := by
  induction xs generalizing ys with
  | nil =>
      rw [List.mapM_nil, List.forall₂_nil_left_iff]
      exact ⟨fun h => (Option.some.inj h).symm, fun h => congrArg some h.symm⟩
  | cons x xs ih =>
      simp only [List.mapM_cons, Option.bind_eq_bind, Option.bind_eq_some_iff, ih]
      constructor
      · rintro ⟨y, hy, rest, hrest, h⟩
        cases h
        exact .cons hy hrest
      · intro h
        cases h with
        | cons hy hrest => exact ⟨_, hy, _, hrest, rfl⟩

/-- Where a value is read as a thing just if it is what is written for the thing, lists are too. -/
theorem mapM_eq_some_iff_eq_map {α β : Type} {f : α → Option β} {g : β → α} {p : β → Prop}
    (h : ∀ x y, f x = some y ↔ x = g y ∧ p y) {xs : List α} {ys : List β} :
    xs.mapM f = some ys ↔ xs = ys.map g ∧ ∀ y ∈ ys, p y := by
  simp only [mapM_eq_some, h]
  induction xs generalizing ys with
  | nil =>
      rw [List.forall₂_nil_left_iff]
      constructor
      · rintro rfl
        exact ⟨rfl, fun y hy => absurd hy List.not_mem_nil⟩
      · rintro ⟨h, -⟩
        exact List.map_eq_nil_iff.mp h.symm
  | cons x xs ih =>
      rw [List.forall₂_cons_left_iff]
      constructor
      · rintro ⟨y, ys, ⟨rfl, hy⟩, hrest, rfl⟩
        obtain ⟨rfl, hall⟩ := ih.mp hrest
        exact ⟨rfl, List.forall_mem_cons.mpr ⟨hy, hall⟩⟩
      · rintro ⟨h, hall⟩
        obtain ⟨y, ys, rfl, rfl, rfl⟩ := List.map_eq_cons_iff.mp h.symm
        obtain ⟨hy, hall⟩ := List.forall_mem_cons.mp hall
        exact ⟨y, ys, ⟨rfl, hy⟩, ih.mpr ⟨rfl, hall⟩, rfl⟩

theorem natBelow?_eq_some {bound n : Nat} {v : Json} :
    natBelow? bound v = some n ↔ v = integer (Int.ofNat n) ∧ n < bound := by
  unfold natBelow?
  split
  · rw [Option.ite_none_right_eq_some, Option.some_inj]
    constructor
    · rintro ⟨hlt, rfl⟩
      exact ⟨rfl, hlt⟩
    · rintro ⟨h, hlt⟩
      cases h
      exact ⟨hlt, rfl⟩
  · next hnot =>
    constructor
    · intro h
      cases h
    · rintro ⟨rfl, -⟩
      exact absurd rfl (hnot n)

/-- The records whose named fields have the given values: an object whose keys are texts and that
has each of these fields once, and possibly others, or an array of the values. -/
inductive Record (names : List String) (ws : List Json) : Json → Prop
  | object {fields : List (Option String × Json)} (hkeys : ∀ field ∈ fields, field.1.isSome = true)
      (hfields : List.Forall₂
        (fun name w => fields.filter (fun field => field.1 == some name) = [(some name, w)])
        names ws) :
      Record names ws (.object fields)
  | array (hlength : ws.length = names.length) : Record names ws (.array ws)

variable {fields others : List (Option String × Json)} {name : String} {w : Json}

theorem soleField?_eq_some :
    soleField? fields name = some w ↔
      fields.filter (fun field => field.1 == some name) = [(some name, w)] := by
  unfold soleField?
  split
  · next field hfield =>
    have hmem : field ∈ fields.filter fun field => field.1 == some name := by
      rw [hfield]
      exact List.mem_singleton_self field
    have hname : field.1 = some name := beq_iff_eq.mp (List.mem_filter.mp hmem).2
    rw [hfield, List.singleton_inj, Prod.ext_iff, Option.some_inj]
    simp [hname]
  · next hnot =>
    constructor
    · intro h
      cases h
    · intro h
      exact absurd h (hnot _)

theorem record?_eq_some {v : Json} {names : List String} {ws : List Json} :
    v.record? names = some ws ↔ Record names ws v := by
  constructor
  · intro h
    unfold record? at h
    split at h
    · obtain ⟨hkeys, h⟩ := Option.ite_none_right_eq_some.mp h
      simp only [mapM_eq_some, soleField?_eq_some] at h
      exact .object (List.all_eq_true.mp hkeys) h
    · obtain ⟨hlength, h⟩ := Option.ite_none_right_eq_some.mp h
      cases h
      exact .array hlength
    · cases h
  · intro h
    cases h with
    | object hkeys hfields =>
        rw [record?, if_pos (List.all_eq_true.mpr hkeys)]
        simp only [mapM_eq_some, soleField?_eq_some]
        exact hfields
    | array hlength => exact if_pos hlength

/-- A field that stands among fields of other names can be told by its name. -/
theorem filter_key_eq (h : fields.Perm ((some name, w) :: others))
    (hothers : ∀ field ∈ others, field.1 ≠ some name) :
    fields.filter (fun field => field.1 == some name) = [(some name, w)] := by
  have hnone : others.filter (fun field => field.1 == some name) = [] := by
    rw [List.filter_eq_nil_iff]
    intro field hfield hname
    exact hothers field hfield (beq_iff_eq.mp hname)
  have hfiltered := h.filter fun field => field.1 == some name
  rw [List.filter_cons, if_pos (beq_iff_eq.mpr rfl), hnone] at hfiltered
  exact List.perm_singleton.mp hfiltered

/-- Where a name is given once, every field with the name is this field. -/
theorem eq_of_filter_key {w' : Json}
    (h : fields.filter (fun field => field.1 == some name) = [(some name, w)])
    (hmem : (some name, w') ∈ fields) : w' = w := by
  have hfiltered : (some name, w') ∈ fields.filter fun field => field.1 == some name :=
    List.mem_filter.mpr ⟨hmem, beq_iff_eq.mpr rfl⟩
  rw [h, List.mem_singleton] at hfiltered
  exact congrArg Prod.snd hfiltered

end Intcode.Json
