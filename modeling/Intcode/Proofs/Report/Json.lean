import Intcode.Proofs.Json.Parse
import Intcode.Proofs.Json.Record
import Intcode.Report.Json

/-!
# Reports as JSON text

What a JSON value has to be to denote a report is described by a relation, and reading is proved to
follow it: every operation has a count, nothing else has one, and the record may have further
fields. So a report whose numbers are machine numbers is read back from the text that it is written
as, and from every text that differs from it in the order of the fields, in blanks and in further
fields.
-/

namespace Intcode

theorem Opcode.ofName?_name (op : Opcode) : ofName? op.name = some op := by
  cases op <;> decide

theorem Opcode.ofName?_eq_some {s : String} {op : Opcode} : ofName? s = some op ↔ s = op.name := by
  constructor
  · intro h
    have hname := List.find?_some h
    exact (beq_iff_eq.mp hname).symm
  · rintro rfl
    exact op.ofName?_name

namespace Report

variable {r : Report} {v : Json}

/-- The field of a count. -/
def countField (entry : Opcode × Nat) : Option String × Json :=
  (some entry.1.name, .integer (Int.ofNat entry.2))

/-- The fields that give every operation a count, in any order. Where an operation has several
counts, the last one holds. -/
def DenotesCounts (fields : Json.Fields) (f : Opcode → Nat) : Prop :=
  ∃ entries : List (Opcode × Nat), fields = entries.map countField ∧
    (∀ entry ∈ entries, entry.2 < countBound) ∧
    ∀ op, ∃ before after, entries = before ++ (op, f op) :: after ∧ ∀ entry ∈ after, entry.1 ≠ op

/-- The values that denote a report: records of the counts and of the peak. -/
def Denotes (v : Json) (r : Report) : Prop :=
  ∃ fields, Json.Record ["opcode_counts", "peak_memory_len"]
      [.object fields, .integer (Int.ofNat r.peak)] v ∧
    DenotesCounts fields r.count ∧ r.peak < countBound

theorem countField?_eq_some (field : Option String × Json) (entry : Opcode × Nat) :
    countField? field = some entry ↔ field = countField entry ∧ entry.2 < countBound := by
  obtain ⟨key, value⟩ := field
  obtain ⟨op, n⟩ := entry
  simp only [countField?, countField, Option.bind_eq_bind, Option.bind_eq_some_iff,
    Opcode.ofName?_eq_some, Json.natBelow?_eq_some, Option.pure_def, Option.some_inj,
    Prod.mk.injEq]
  constructor
  · rintro ⟨_, rfl, _, rfl, _, ⟨rfl, hlt⟩, rfl, rfl⟩
    exact ⟨⟨rfl, rfl⟩, hlt⟩
  · rintro ⟨⟨rfl, rfl⟩, hlt⟩
    exact ⟨op.name, rfl, op, rfl, n, ⟨rfl, hlt⟩, rfl, rfl⟩

theorem lastCount?_eq_some {entries : List (Opcode × Nat)} {op : Opcode} {n : Nat} :
    lastCount? entries op = some n ↔
      ∃ before after, entries = before ++ (op, n) :: after ∧ ∀ entry ∈ after, entry.1 ≠ op := by
  simp only [lastCount?, Option.map_eq_some_iff, List.find?_eq_some_iff_append,
    List.reverse_eq_append_iff, List.reverse_cons, List.append_assoc, List.singleton_append,
    Bool.not_eq_eq_eq_not, Bool.not_true, beq_eq_false_iff_ne, beq_iff_eq]
  constructor
  · rintro ⟨⟨op, n⟩, ⟨rfl, after, before, hentries, hafter⟩, rfl⟩
    exact ⟨_, _, hentries, fun entry he => hafter entry (List.mem_reverse.mp he)⟩
  · rintro ⟨before, after, rfl, hafter⟩
    refine ⟨(op, n), ⟨rfl, after.reverse, before.reverse, ?_, ?_⟩, rfl⟩
    · rw [List.reverse_reverse, List.reverse_reverse]
    · exact fun entry he => hafter entry (List.mem_reverse.mp he)

theorem counts?_eq_some {f : Opcode → Nat} :
    counts? v = some f ↔ ∃ fields, v = .object fields ∧ DenotesCounts fields f := by
  constructor
  · intro h
    unfold counts? at h
    split at h
    · next fields =>
      obtain ⟨entries, hentries, h⟩ := Option.bind_eq_some_iff.mp h
      obtain ⟨hfields, hbound⟩ := (Json.mapM_eq_some_iff_eq_map countField?_eq_some).mp hentries
      obtain ⟨hall, h⟩ := Option.ite_none_right_eq_some.mp h
      refine ⟨fields, rfl, entries, hfields, hbound, fun op => lastCount?_eq_some.mp ?_⟩
      obtain ⟨n, hn⟩ := Option.isSome_iff_exists.mp (List.all_eq_true.mp hall op op.mem_all)
      simp only [← Option.some.inj h, hn, Option.getD_some]
    · cases h
  · rintro ⟨fields, rfl, entries, hfields, hbound, hlast⟩
    have hcount (op : Opcode) : lastCount? entries op = some (f op) :=
      lastCount?_eq_some.mpr (hlast op)
    rw [counts?, (Json.mapM_eq_some_iff_eq_map countField?_eq_some).mpr ⟨hfields, hbound⟩]
    simp only [Option.bind_eq_bind, Option.bind_some, hcount]
    rw [if_pos (by rfl)]
    rfl

/-- The values that denote a report are read as it, and nothing else is read. -/
theorem ofJson?_eq_some : ofJson? v = some r ↔ Denotes v r := by
  constructor
  · intro h
    unfold ofJson? at h
    split at h
    · next counts peak hrecord =>
      simp only [Option.bind_eq_bind, Option.bind_eq_some_iff, Option.pure_def, Option.some_inj,
        counts?_eq_some, Json.natBelow?_eq_some] at h
      obtain ⟨f, ⟨fields, rfl, hcounts⟩, n, ⟨rfl, hpeak⟩, rfl⟩ := h
      refine ⟨fields, Json.record?_eq_some.mp hrecord, ?_, hpeak⟩
      rwa [show (ofCounts f n).count = f from funext fun op => count_ofCounts f n op]
    · cases h
  · rintro ⟨fields, hrecord, hcounts, hpeak⟩
    rw [ofJson?, Json.record?_eq_some.mpr hrecord]
    simp only [counts?_eq_some.mpr ⟨fields, rfl, hcounts⟩,
      Json.natBelow?_eq_some.mpr ⟨rfl, hpeak⟩]
    exact congrArg some r.ofCounts_count

theorem ofJsonText?_eq_some {s : String} :
    ofJsonText? s = some r ↔ ∃ v, Json.parse? s = some v ∧ Denotes v r := by
  rw [ofJsonText?, Option.bind_eq_bind, Option.bind_eq_some_iff]
  simp only [ofJson?_eq_some]

/-- All numbers of a report are machine numbers. -/
structure Bounded (r : Report) : Prop where
  count_lt : ∀ op, r.count op < countBound
  peak_lt : r.peak < countBound

/-- The values that differ from the one that is written for a report at most in the order of the
fields, also of those of the counts, and in that the record has further fields. -/
inductive Rearranged (r : Report) : Json → Prop
  | intro {ops : List Opcode} {fields others : Json.Fields} (hops : ops.Perm Opcode.all)
      (hothers : ∀ field ∈ others, ∃ name, field.1 = some name ∧ name ≠ "opcode_counts" ∧
        name ≠ "peak_memory_len")
      (hfields : fields.Perm
        ((some "opcode_counts",
            .object (ops.map fun op => (some op.name, .integer (Int.ofNat (r.count op))))) ::
          (some "peak_memory_len", .integer (Int.ofNat r.peak)) :: others)) :
      Rearranged r (.object fields)

theorem rearranged_toJson (r : Report) : Rearranged r r.toJson :=
  .intro (.refl Opcode.all) (fun _ h => absurd h List.not_mem_nil) (.refl _)

/-- A list in which each operation comes once gives each of them its count. -/
theorem denotesCounts_map {ops : List Opcode} (hr : r.Bounded) (hops : ops.Perm Opcode.all) :
    DenotesCounts (ops.map fun op => (some op.name, .integer (Int.ofNat (r.count op))))
      r.count := by
  refine ⟨ops.map fun op => (op, r.count op), ?_, ?_, ?_⟩
  · rw [List.map_map]
    rfl
  · rw [List.forall_mem_map]
    exact fun op _ => hr.count_lt op
  · intro op
    have hnodup : ops.Nodup := hops.nodup_iff.mpr (by decide)
    obtain ⟨before, after, rfl⟩ := List.append_of_mem (hops.mem_iff.mpr op.mem_all)
    refine ⟨before.map _, after.map _, List.map_append, ?_⟩
    rw [List.forall_mem_map]
    rintro x hx rfl
    exact (List.nodup_cons.mp (List.nodup_append.mp hnodup).2.1).1 hx

/-- However the fields are arranged, the value denotes the report. -/
theorem Rearranged.denotes (h : Rearranged r v) (hr : r.Bounded) : Denotes v r := by
  obtain ⟨hops, hothers, hfields⟩ := h
  refine ⟨_, .object ?_ (.cons ?_ (.cons ?_ .nil)), denotesCounts_map hr hops, hr.peak_lt⟩
  · intro field hfield
    rcases List.mem_cons.mp (hfields.mem_iff.mp hfield) with rfl | hfield
    · rfl
    · rcases List.mem_cons.mp hfield with rfl | hfield
      · rfl
      · obtain ⟨name, hname, -⟩ := hothers field hfield
        rw [hname]
        rfl
  · apply Json.filter_key_eq hfields
    rw [List.forall_mem_cons]
    refine ⟨by simp, ?_⟩
    intro field hfield hname
    obtain ⟨name, hname', hne, -⟩ := hothers field hfield
    exact hne (Option.some.inj (hname'.symm.trans hname))
  · apply Json.filter_key_eq (hfields.trans (.swap _ _ _))
    rw [List.forall_mem_cons]
    refine ⟨by simp, ?_⟩
    intro field hfield hname
    obtain ⟨name, hname', -, hne⟩ := hothers field hfield
    exact hne (Option.some.inj (hname'.symm.trans hname))

theorem legible_toJson (r : Report) : ∀ t ∈ r.toJson.tokens, t.Legible := by
  simp [toJson, countsToJson, Opcode.all, Json.tokens, Json.moreFields, Json.Token.Legible]

theorem ofJsonText?_of_rearranged {s : String} (hr : r.Bounded) (hs : Json.parse? s = some v)
    (hv : Rearranged r v) : ofJsonText? s = some r :=
  ofJsonText?_eq_some.mpr ⟨v, hs, hv.denotes hr⟩

theorem ofJsonText?_jsonText (hr : r.Bounded) : ofJsonText? r.jsonText = some r :=
  ofJsonText?_of_rearranged hr (Json.parse?_compact r.legible_toJson) r.rearranged_toJson

/-- A report that is written on lines is read back. -/
theorem ofJsonText?_prettyText {blanks : String} (h : ∀ op, r.count op < countBound)
    (hpeak : r.peak < countBound) (hblanks : ∀ c ∈ blanks.toList, Json.isSpace c = true) :
    ofJsonText? (r.prettyText ++ blanks) = some r :=
  ofJsonText?_of_rearranged ⟨h, hpeak⟩ (Json.parse?_pretty r.legible_toJson hblanks)
    r.rearranged_toJson

/-- A value that gives a count under a key. -/
inductive HasCount (key : Option String) : Json → Prop
  | object {fields counts : Json.Fields} {w : Json}
      (hcounts : (some "opcode_counts", .object counts) ∈ fields) (hkey : (key, w) ∈ counts) :
      HasCount key (.object fields)
  | array {counts : Json.Fields} {rest : List Json} {w : Json} (hkey : (key, w) ∈ counts) :
      HasCount key (.array (.object counts :: rest))

/-- The keys of counts in a value that denotes a report are the names of the operations. -/
theorem Denotes.hasCount_iff (h : Denotes v r) (key : Option String) :
    HasCount key v ↔ ∃ op : Opcode, key = some op.name := by
  obtain ⟨counts, hrecord, ⟨entries, hcounts, -, hlast⟩, -⟩ := h
  have hkeys : (∃ w, (key, w) ∈ counts) ↔ ∃ op : Opcode, key = some op.name := by
    subst hcounts
    constructor
    · rintro ⟨w, hw⟩
      obtain ⟨entry, -, hentry⟩ := List.mem_map.mp hw
      exact ⟨entry.1, (congrArg Prod.fst hentry).symm⟩
    · rintro ⟨op, rfl⟩
      obtain ⟨before, after, rfl, -⟩ := hlast op
      exact ⟨_, List.mem_map_of_mem (List.mem_append_right _ List.mem_cons_self)⟩
  rw [← hkeys]
  cases hrecord with
  | object _ hfields =>
      have hsole := (List.forall₂_cons.mp hfields).1
      constructor
      · intro h
        cases h with
        | @object fields counts' w hmem hkey =>
            cases Json.eq_of_filter_key hsole hmem
            exact ⟨w, hkey⟩
      · rintro ⟨w, hw⟩
        have hmem := List.mem_singleton_self (some "opcode_counts", Json.object counts)
        rw [← hsole] at hmem
        exact .object (List.mem_filter.mp hmem).1 hw
  | array =>
      constructor
      · intro h
        cases h with
        | array hkey => exact ⟨_, hkey⟩
      · rintro ⟨w, hw⟩
        exact .array hw

/-- A report whose numbers are machine numbers is read back from the text that is written for it,
and from every text of a value that differs from the written one in the order of the fields and in
further fields of the record; between the words of such a text there may be any blanks. A text that
gives no count for one of the operations, or a count under a key that is the name of none, is not
read as any report. -/
theorem json_text_reads_back :
    (∀ r : Report, r.Bounded → ofJsonText? r.jsonText = some r) ∧
    (∀ (r : Report) (v : Json), r.Bounded → Rearranged r v →
      (∀ s : String, Json.Spells v.tokens s.toList → ofJsonText? s = some r) ∧
      ∀ s : String, Json.parse? s = some v → ofJsonText? s = some r) ∧
    (∀ (s : String) (op : Opcode),
      (∀ v, Json.parse? s = some v → ¬ HasCount (some op.name) v) → ofJsonText? s = none) ∧
    ∀ (s : String) (v : Json) (key : Option String), Json.parse? s = some v → HasCount key v →
      (∀ op : Opcode, key ≠ some op.name) → ofJsonText? s = none := by
  refine ⟨fun r hr => ofJsonText?_jsonText hr, ?_, ?_, ?_⟩
  · intro r v hr hv
    refine ⟨?_, fun s hs => ofJsonText?_of_rearranged hr hs hv⟩
    exact fun s hs => ofJsonText?_of_rearranged hr (Json.parse?_of_spells hs) hv
  · intro s op hmissing
    rw [Option.eq_none_iff_forall_ne_some]
    intro r hread
    obtain ⟨v, hparse, hv⟩ := ofJsonText?_eq_some.mp hread
    exact hmissing v hparse ((hv.hasCount_iff _).mpr ⟨op, rfl⟩)
  · intro s v key hparse hkey hunknown
    rw [Option.eq_none_iff_forall_ne_some]
    intro r hread
    obtain ⟨v', hparse', hv⟩ := ofJsonText?_eq_some.mp hread
    cases hparse.symm.trans hparse'
    obtain ⟨op, hop⟩ := (hv.hasCount_iff key).mp hkey
    exact hunknown op hop

/-- The counts in the opposite order, behind the peak and a field that no report has, and on lines.
With one count only, or with a count of an operation that is not there, nothing is read. -/
theorem json_text_reads_back_shuffled :
    (let r := ofCounts (fun op => if op = .halt then 18446744073709551615 else 0) 29
      let counts : Json.Fields :=
        Opcode.all.reverse.map fun op => (some op.name, .integer (Int.ofNat (r.count op)))
      let v : Json := .object [(some "peak_memory_len", .integer 29),
        (some "note", .array [.text none, .bool true, .null]),
        (some "opcode_counts", .object counts)]
      ofJsonText? (v.pretty ++ "\n") = some r) ∧
    ofJsonText? "\x7b\"opcode_counts\":\x7b\"ADD\":0\x7d,\"peak_memory_len\":0\x7d" = none ∧
    ofJsonText? "[\x7b\"NOP\":0\x7d,0]" = none := by
  refine ⟨?_, ?_, ?_⟩
  · intro r counts v
    have hr : r.Bounded := ⟨by intro op; cases op <;> decide, by decide⟩
    have hlegible : ∀ t ∈ v.tokens, t.Legible := by
      simp [v, counts, Opcode.all, Json.tokens, Json.moreElements, Json.moreFields,
        Json.Token.Legible]
    have hspells : Json.Spells v.tokens (v.pretty ++ "\n").toList :=
      Json.spells_pretty hlegible (List.all_eq_true.mp rfl)
    have hv : Rearranged r v := by
      let note : Option String × Json := (some "note", .array [.text none, .bool true, .null])
      have hnote : ∀ field ∈ [note], ∃ name, field.1 = some name ∧ name ≠ "opcode_counts" ∧
          name ≠ "peak_memory_len" := by
        rw [List.forall_mem_singleton]
        exact ⟨"note", rfl, by decide, by decide⟩
      refine .intro (List.reverse_perm Opcode.all) hnote ?_
      exact @List.perm_append_comm _ [(some "peak_memory_len", Json.integer 29), note]
        [(some "opcode_counts", Json.object counts)]
    exact (json_text_reads_back.2.1 r v hr hv).1 _ hspells
  · let w : Json := .object [(some "opcode_counts", .object [(some "ADD", .integer 0)]),
      (some "peak_memory_len", .integer 0)]
    have hparse : Json.parse? w.compact = some w := by
      apply Json.parse?_compact
      simp [w, Json.tokens, Json.moreFields, Json.Token.Legible]
    have htext : w.compact =
        "\x7b\"opcode_counts\":\x7b\"ADD\":0\x7d,\"peak_memory_len\":0\x7d" := by
      simp only [w, Json.compact, Json.tokens, Json.moreFields]
      decide
    rw [htext] at hparse
    apply json_text_reads_back.2.2.1 _ .mul
    intro v hv hcount
    rw [← Option.some.inj (hparse.symm.trans hv)] at hcount
    simp only [w] at hcount
    cases hcount with
    | object hcounts hkey => simp_all [Opcode.name]
  · let w : Json := .array [.object [(some "NOP", .integer 0)], .integer 0]
    have hparse : Json.parse? w.compact = some w := by
      apply Json.parse?_compact
      simp [w, Json.tokens, Json.moreElements, Json.moreFields, Json.Token.Legible]
    have htext : w.compact = "[\x7b\"NOP\":0\x7d,0]" := by
      simp only [w, Json.compact, Json.tokens, Json.moreElements, Json.moreFields]
      decide
    rw [htext] at hparse
    refine json_text_reads_back.2.2.2 _ _ (some "NOP") hparse (.array List.mem_cons_self) ?_
    intro op
    cases op <;> decide

end Report

end Intcode
