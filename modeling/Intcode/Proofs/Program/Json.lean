import Intcode.Program.Json
import Intcode.Proofs.Json.Parse
import Intcode.Proofs.Json.Record
import Mathlib.Data.Nat.Digits.Lemmas

/-!
# Programs as JSON text

Every program has one JSON text that is written for it, in which each cell is a sign and the digits
of its magnitude to the base 2³², and many more texts that are read as the program: there may be
zeros behind the digits, zero may have any sign or any digits, the record may have further fields or
be an array. What such a text denotes is described by relations, and reading follows them.
-/

namespace Intcode

theorem limbs_eq_digits (n : Nat) : limbs n = Nat.digits (2 ^ 32) n := by
  fun_induction limbs n with
  | case1 => rw [Nat.digits_zero]
  | case2 n hn ih =>
      rw [ih, Nat.digits_def' (by decide) (Nat.pos_of_ne_zero hn)]
      rfl

theorem lt_of_mem_limbs {n d : Nat} (h : d ∈ limbs n) : d < 2 ^ 32 := by
  rw [limbs_eq_digits] at h
  exact Nat.digits_lt_base (by decide) h

/-- The magnitude with given digits, each of which counts as the power of the base at its place. -/
def magnitude (ds : List Nat) : Nat := (ds.mapIdx fun i d => d * 2 ^ (32 * i)).sum

theorem ofLimbs_eq_magnitude (ds : List Nat) : ofLimbs ds = magnitude ds := by
  have hdigits : ofLimbs ds = Nat.ofDigits (2 ^ 32) ds := by
    induction ds with
    | nil => rfl
    | cons d ds ih =>
        rw [ofLimbs, ih, Nat.ofDigits_cons]
        rfl
  rw [hdigits, Nat.ofDigits_eq_sum_mapIdx, magnitude]
  simp only [pow_mul]

namespace Json

theorem mapM_natBelow?_eq_some {bound : Nat} {vs : List Json} {ds : List Nat} :
    vs.mapM (natBelow? bound) = some ds ↔
      vs = ds.map (fun d => integer (Int.ofNat d)) ∧ ∀ d ∈ ds, d < bound :=
  mapM_eq_some_iff_eq_map fun _ _ => natBelow?_eq_some

/-- The values that denote an integer: a sign and any digits. -/
inductive DenotesInt : Json → Int → Prop
  | intro {sign : Int} {ds : List Nat} (hsign : sign = -1 ∨ sign = 0 ∨ sign = 1)
      (hdigits : ∀ d ∈ ds, d < 2 ^ 32) :
      DenotesInt (array [integer sign, array (ds.map fun d => integer (Int.ofNat d))])
        (sign * magnitude ds)

/-- The values that denote an integer are read as it, and nothing else is read. -/
theorem toInt?_eq_some {v : Json} {n : Int} : toInt? v = some n ↔ DenotesInt v n := by
  have hbase : limbBase = 2 ^ 32 := by
    decide
  constructor
  · intro h
    unfold toInt? at h
    split at h
    · simp only [Option.bind_eq_bind, Option.bind_eq_some_iff, mapM_natBelow?_eq_some,
        Option.ite_none_right_eq_some, Option.some_inj, ofLimbs_eq_magnitude, hbase] at h
      obtain ⟨ds, ⟨rfl, hdigits⟩, hsign, rfl⟩ := h
      exact .intro hsign hdigits
    · cases h
  · intro h
    cases h with
    | @intro sign ds hsign hdigits =>
        have hread := mapM_natBelow?_eq_some.mpr ⟨rfl, hdigits⟩
        rw [toInt?, hbase, hread, ← ofLimbs_eq_magnitude]
        exact if_pos hsign

/-- The value that an integer is written as denotes it. -/
theorem denotesInt_ofInt (n : Int) : DenotesInt (ofInt n) n := by
  have hsign : n.sign = -1 ∨ n.sign = 0 ∨ n.sign = 1 := by
    rcases Int.lt_trichotomy n 0 with h | rfl | h
    · exact .inl (Int.sign_eq_neg_one_of_neg h)
    · exact .inr (.inl rfl)
    · exact .inr (.inr (Int.sign_eq_one_of_pos h))
  have hvalue := DenotesInt.intro hsign fun d (hd : d ∈ limbs n.natAbs) => lt_of_mem_limbs hd
  rwa [← ofLimbs_eq_magnitude, ofLimbs_limbs, Int.sign_mul_natAbs] at hvalue

/-- The records whose one field has a value: an object that has the field once, and possibly others,
or an array of the value alone. -/
inductive RecordOf (name : String) (w : Json) : Json → Prop
  | object {fields : List (Option String × Json)} (hkeys : ∀ field ∈ fields, field.1.isSome = true)
      (hfield : fields.filter (fun field => field.1 == some name) = [(some name, w)]) :
      RecordOf name w (.object fields)
  | array : RecordOf name w (.array [w])

theorem record?_singleton_eq_some {v : Json} {name : String} {w : Json} :
    v.record? [name] = some [w] ↔ RecordOf name w v := by
  rw [record?_eq_some]
  constructor
  · intro h
    cases h with
    | object hkeys hfields => exact .object hkeys (List.forall₂_cons.mp hfields).1
    | array => exact .array
  · intro h
    cases h with
    | object hkeys hfield => exact .object hkeys (.cons hfield .nil)
    | array => exact .array rfl

end Json

namespace Program

/-- The values that denote a program: records of an image whose cells each denote an integer. -/
def Denotes (v : Json) (p : Program) : Prop :=
  ∃ cells, Json.RecordOf "image" (.array cells) v ∧
    List.Forall₂ Json.DenotesInt cells p.image.toList

theorem mapM_toInt?_eq_some {cells : List Json} {ns : List Int} :
    cells.mapM Json.toInt? = some ns ↔ List.Forall₂ Json.DenotesInt cells ns := by
  simp only [Json.mapM_eq_some, Json.toInt?_eq_some]

/-- The values that denote a program are read as it, and nothing else is read. -/
theorem ofJson?_eq_some {v : Json} {p : Program} : ofJson? v = some p ↔ Denotes v p := by
  constructor
  · intro h
    unfold ofJson? at h
    split at h
    · next cells hrecord =>
      obtain ⟨ns, hns, h⟩ := Option.bind_eq_some_iff.mp h
      cases h
      exact ⟨cells, Json.record?_singleton_eq_some.mp hrecord, mapM_toInt?_eq_some.mp hns⟩
    · cases h
  · rintro ⟨cells, hrecord, hcells⟩
    rw [ofJson?, Json.record?_singleton_eq_some.mpr hrecord]
    change (cells.mapM Json.toInt? >>= fun ns => pure (ofList ns)) = some p
    rw [mapM_toInt?_eq_some.mpr hcells]
    rfl

/-- The value that a program is written as denotes it. -/
theorem denotes_toJson (p : Program) : Denotes p.toJson p := by
  refine ⟨p.image.toList.map Json.ofInt, .object ?_ rfl, ?_⟩
  · exact List.forall_mem_singleton.mpr rfl
  · rw [List.forall₂_map_left_iff]
    exact List.forall₂_same.mpr fun n _ => Json.denotesInt_ofInt n

theorem legible_ofInt (n : Int) : ∀ t ∈ (Json.ofInt n).tokens, t.Legible := by
  apply Json.legible_array
  rw [List.forall_mem_cons, List.forall_mem_singleton]
  refine ⟨Json.legible_integer n.sign, ?_⟩
  apply Json.legible_array
  intro v hv
  obtain ⟨d, -, rfl⟩ := List.mem_map.mp hv
  exact Json.legible_integer (Int.ofNat d)

theorem tokens_toJson (p : Program) :
    p.toJson.tokens = .openObject :: .text (some "image") :: .colon ::
      (Json.array (p.image.toList.map Json.ofInt)).tokens ++ [.closeObject] := by
  rw [toJson, Json.tokens, Json.moreFields]

theorem legible_toJson (p : Program) : ∀ t ∈ p.toJson.tokens, t.Legible := by
  have himage : ∀ t ∈ (Json.array (p.image.toList.map Json.ofInt)).tokens, t.Legible := by
    apply Json.legible_array
    intro v hv
    obtain ⟨n, -, rfl⟩ := List.mem_map.mp hv
    exact legible_ofInt n
  rw [tokens_toJson, List.forall_mem_append, List.forall_mem_singleton]
  simp only [List.forall_mem_cons]
  exact ⟨⟨trivial, trivial, trivial, himage⟩, trivial⟩

/-- The text of a cell. -/
def cellJsonText (n : Int) : String :=
  "[" ++ toString n.sign ++ ",[" ++ ",".intercalate ((Nat.digits (2 ^ 32) n.natAbs).map toString) ++
    "]]"

/-- The text of a program: nothing but its image, in which no cell has zeros behind its digits. -/
def canonicalText (p : Program) : String :=
  "\x7b\"image\":[" ++ ",".intercalate (p.image.toList.map cellJsonText) ++ "]\x7d"

theorem compact_ofInt (n : Int) : (Json.ofInt n).compact = cellJsonText n := by
  have hdigits : ((limbs n.natAbs).map fun d => Json.integer (Int.ofNat d)).map Json.compact =
      (Nat.digits (2 ^ 32) n.natAbs).map toString := by
    rw [limbs_eq_digits, List.map_map]
    exact List.map_congr_left fun d _ => Json.compact_integer (Int.ofNat d)
  rw [Json.ofInt, Json.compact_array, List.map_cons, List.map_singleton, Json.compact_integer,
    Json.compact_array, hdigits, String.intercalate_cons_cons, String.intercalate_singleton,
    cellJsonText]
  simp [← String.toList_inj]

theorem jsonText_eq_canonicalText (p : Program) : p.jsonText = canonicalText p := by
  have hcells : (p.image.toList.map Json.ofInt).map Json.compact =
      p.image.toList.map cellJsonText := by
    rw [List.map_map]
    exact List.map_congr_left fun n _ => compact_ofInt n
  have himage := Json.toList_compact (Json.array (p.image.toList.map Json.ofInt))
  rw [Json.compact_array, hcells] at himage
  rw [← String.toList_inj, jsonText, Json.toList_compact, tokens_toJson]
  simp only [List.cons_append, List.flatMap_cons, List.flatMap_append, List.flatMap_nil, ← himage,
    canonicalText, String.toList_append, List.append_assoc]
  rfl

theorem ofJsonText?_eq_some {s : String} {p : Program} :
    ofJsonText? s = some p ↔ ∃ v, Json.parse? s = some v ∧ Denotes v p := by
  rw [ofJsonText?, Option.bind_eq_bind, Option.bind_eq_some_iff]
  simp only [ofJson?_eq_some]

theorem ofJsonText?_jsonText (p : Program) : ofJsonText? p.jsonText = some p :=
  ofJsonText?_eq_some.mpr ⟨p.toJson, Json.parse?_compact p.legible_toJson, p.denotes_toJson⟩

/-- The text that is written for a program is its canonical text, and is read back. A text is read
as a program exactly if the value that it makes up denotes the program, whatever its digits, signs
and further fields are. To write what was read and to read that again changes nothing. -/
theorem json_round_trip :
    (∀ p : Program, p.jsonText = p.canonicalText ∧ ofJsonText? p.jsonText = some p) ∧
    (∀ s p, ofJsonText? s = some p ↔ ∃ v, Json.parse? s = some v ∧ Denotes v p) ∧
    ∀ s, ((ofJsonText? s).bind fun p => ofJsonText? p.jsonText) = ofJsonText? s := by
  refine ⟨?_, fun s p => ofJsonText?_eq_some, ?_⟩
  · exact fun p => ⟨p.jsonText_eq_canonicalText, p.ofJsonText?_jsonText⟩
  · intro s
    simp only [ofJsonText?_jsonText]
    exact Option.bind_fun_some (ofJsonText? s)

/-- A record as an array, with a zero behind the digits of one cell and digits in a cell whose sign
makes it zero. -/
theorem json_round_trip_loose :
    ofJsonText? "[[[-1,[5,1,0]],[0,[7]]]]" = some ⟨#[-4294967301, 0]⟩ ∧
      canonicalText ⟨#[-4294967301, 0]⟩ = "\x7b\"image\":[[-1,[5,1]],[0,[]]]\x7d" ∧
      ofJsonText? "\x7b\"image\":[[-1,[5,1]],[0,[]]]\x7d" = some ⟨#[-4294967301, 0]⟩ := by
  let first : Json := .array [.integer (-1), .array [.integer 5, .integer 1, .integer 0]]
  let second : Json := .array [.integer 0, .array [.integer 7]]
  let v : Json := .array [.array [first, second]]
  have hparse : Json.parse? v.compact = some v := by
    apply Json.parse?_compact
    simp [v, first, second, Json.tokens, Json.moreElements, Json.Token.Legible]
  have hfirst : Json.DenotesInt first (-4294967301) :=
    @Json.DenotesInt.intro (-1) [5, 1, 0] (.inl rfl) (by decide)
  have hsecond : Json.DenotesInt second 0 :=
    @Json.DenotesInt.intro 0 [7] (.inr (.inl rfl)) (by decide)
  have htext : v.compact = "[[[-1,[5,1,0]],[0,[7]]]]" := by
    simp only [v, first, second, Json.compact, Json.tokens, Json.moreElements]
    decide
  have hread : ofJsonText? "[[[-1,[5,1,0]],[0,[7]]]]" = some ⟨#[-4294967301, 0]⟩ := by
    rw [← htext]
    exact (json_round_trip.2.1 _ _).mpr
      ⟨v, hparse, [first, second], .array, .cons hfirst (.cons hsecond .nil)⟩
  have hcell : cellJsonText (-4294967301) = "[-1,[5,1]]" := by
    have hdigits : Nat.digits (2 ^ 32) (Int.natAbs (-4294967301)) = [5, 1] := by
      norm_num
    rw [cellJsonText, hdigits]
    decide
  have hzero : cellJsonText 0 = "[0,[]]" := by
    rw [cellJsonText, Int.natAbs_zero, Nat.digits_zero]
    decide
  have hcanonical : canonicalText ⟨#[-4294967301, 0]⟩ =
      "\x7b\"image\":[[-1,[5,1]],[0,[]]]\x7d" := by
    rw [canonicalText, List.map_cons, List.map_singleton, hcell, hzero]
    decide
  refine ⟨hread, hcanonical, ?_⟩
  obtain ⟨htext, hback⟩ := json_round_trip.1 ⟨#[-4294967301, 0]⟩
  rwa [htext, hcanonical] at hback

end Program

end Intcode
