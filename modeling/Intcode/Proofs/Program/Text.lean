import Intcode.Program
import Intcode.Proofs.Checks
import Intcode.Proofs.Text.Blank
import Intcode.Proofs.Text.Decimal
import Mathlib.Data.List.Forall2

/-!
# Program texts

A text that is not blank is a program exactly if all of its tokens are integers, where the tokens
are what stands between the commas without the blanks around it. Main statements: what is read
depends on the tokens alone, the first token that is no integer is the one that is reported, and a
program is read back from every text in which its cells are written with blanks around them.
-/

namespace Intcode.Program

open Text (Blanks Pads trim)

/-- What stands between the commas of a text, without the blanks around it. -/
def tokens (text : List Char) : List (List Char) := (text.splitOn ',').map trim

theorem fields_eq_splitOn (cs : List Char) : fields cs = cs.splitOn ',' := by
  induction cs with
  | nil => rfl
  | cons c cs ih =>
      rw [fields, ih, List.splitOn, List.splitOn, List.splitOnP_cons_eq_if_modifyHead]
      by_cases hc : c = ','
      · rw [if_pos hc, if_pos (by simpa using hc)]
      · rw [if_neg hc, if_neg (by simpa using hc)]
        obtain ⟨f, fs, hsplit⟩ := List.exists_cons_of_ne_nil (List.splitOnP_ne_nil (· == ',') cs)
        rw [hsplit, List.modifyHead_cons]

theorem tokens_of_not_mem {cs : List Char} (h : ',' ∉ cs) : tokens cs = [trim cs] := by
  rw [tokens, List.splitOn_eq_singleton h, List.map_singleton]

theorem tokens_append_comma (cs rest : List Char) :
    tokens (cs ++ ',' :: rest) = tokens cs ++ tokens rest := by
  have hsplit : (cs ++ ',' :: rest).splitOn ',' = cs.splitOn ',' ++ rest.splitOn ',' :=
    List.splitOnP_append_cons cs rest rfl
  rw [tokens, hsplit, List.map_append]
  rfl

theorem comma_not_mem_of_blanks {w : List Char} (h : Blanks w) : ',' ∉ w := by
  intro hc
  have hblank := h ',' hc
  revert hblank
  decide

theorem tokens_blanks_append {w : List Char} (h : Blanks w) (cs : List Char) :
    tokens (w ++ cs) = tokens cs := by
  have hw := comma_not_mem_of_blanks h
  -- The blanks belong to what stands in front of the first comma.
  by_cases hcs : ',' ∈ cs
  · obtain ⟨first, rest, rfl, hfirst⟩ := List.eq_append_cons_of_mem hcs
    rw [← List.append_assoc, tokens_append_comma, tokens_append_comma,
      tokens_of_not_mem (by simp [hw, hfirst]), tokens_of_not_mem hfirst,
      Text.trim_blanks_append h]
  · rw [tokens_of_not_mem (by simp [hw, hcs]), tokens_of_not_mem hcs, Text.trim_blanks_append h]

theorem tokens_append_blanks {w : List Char} (h : Blanks w) (cs : List Char) :
    tokens (cs ++ w) = tokens cs := by
  have hw := comma_not_mem_of_blanks h
  -- Of what comes after the last comma, `front` is the part that has been passed already.
  suffices hfront : ∀ front, ',' ∉ front → tokens (front ++ cs ++ w) = tokens (front ++ cs) from
    hfront [] List.not_mem_nil
  induction cs with
  | nil =>
      intro front hfront
      rw [List.append_nil, tokens_of_not_mem (by simp [hw, hfront]), tokens_of_not_mem hfront,
        Text.trim_append_blanks front h]
  | cons c cs ih =>
      intro front hfront
      by_cases hc : c = ','
      · subst hc
        rw [List.append_assoc, List.cons_append, tokens_append_comma, tokens_append_comma]
        exact congrArg _ (ih [] List.not_mem_nil)
      · have hnext := ih (front ++ [c]) (by simp [hfront, Ne.symm hc])
        rwa [List.append_assoc front [c] cs] at hnext

/-- Blanks around a text do not change its tokens. -/
theorem tokens_of_pads {cs padded : List Char} (h : Pads cs padded) :
    tokens padded = tokens cs := by
  obtain ⟨before, after, hbefore, hafter, rfl⟩ := h
  rw [tokens_append_blanks hafter, tokens_blanks_append hbefore]

theorem comma_not_mem_of_pads {f padded : List Char} (h : Pads f padded) (hf : ',' ∉ f) :
    ',' ∉ padded := by
  obtain ⟨before, after, hbefore, hafter, rfl⟩ := h
  simp [comma_not_mem_of_blanks hbefore, comma_not_mem_of_blanks hafter, hf]

theorem comma_not_mem_of_mem_splitOn {cs f : List Char} (h : f ∈ cs.splitOn ',') : ',' ∉ f := by
  induction cs generalizing f with
  | nil =>
      rw [List.splitOn_nil, List.mem_singleton] at h
      rw [h]
      exact List.not_mem_nil
  | cons c cs ih =>
      obtain ⟨g, gs, hsplit⟩ := List.exists_cons_of_ne_nil (List.splitOnP_ne_nil (· == ',') cs)
      rw [List.splitOn, List.splitOnP_cons_eq_if_modifyHead, hsplit] at h
      have hmem {f : List Char} (hf : f ∈ g :: gs) : ',' ∉ f := by
        apply ih
        rw [List.splitOn, hsplit]
        exact hf
      split at h
      · rcases List.mem_cons.mp h with rfl | h
        · exact List.not_mem_nil
        · exact hmem h
      · next hc =>
        rw [List.modifyHead_cons] at h
        rcases List.mem_cons.mp h with rfl | h
        · have hne : ',' ≠ c := by
            rintro rfl
            exact hc rfl
          simp [hne, hmem List.mem_cons_self]
        · exact hmem (.tail g h)

theorem forall₂_pads {fs padded : List (List Char)} (h : List.Forall₂ Pads fs padded)
    (hfs : ∀ f ∈ fs, ',' ∉ f) : (∀ g ∈ padded, ',' ∉ g) ∧ padded.map trim = fs.map trim := by
  induction h with
  | nil => exact ⟨hfs, rfl⟩
  | @cons f g fs padded hpads _ ih =>
      obtain ⟨hcomma, htrim⟩ := ih fun f hf => hfs f (List.mem_cons_of_mem _ hf)
      refine ⟨List.forall_mem_cons.mpr ⟨?_, hcomma⟩, ?_⟩
      · exact comma_not_mem_of_pads hpads (hfs f List.mem_cons_self)
      · rw [List.map_cons, List.map_cons, Text.trim_of_pads hpads, htrim]

/-- Fields with blanks around them have the tokens of the fields. -/
theorem tokens_intercalate {fs padded : List (List Char)} (hne : fs ≠ [])
    (hpads : List.Forall₂ Pads fs padded) (hfs : ∀ f ∈ fs, ',' ∉ f) :
    tokens ([','].intercalate padded) = fs.map trim := by
  obtain ⟨hcomma, htrim⟩ := forall₂_pads hpads hfs
  have hpadded : padded ≠ [] := by
    rintro rfl
    exact hne (List.forall₂_nil_right_iff.mp hpads)
  rw [tokens, List.splitOn_intercalate ',' hcomma hpadded, htrim]

/-- A text has one empty token and no others exactly if it is blank. -/
theorem tokens_eq_singleton_nil {cs : List Char} : tokens cs = [[]] ↔ Blanks cs := by
  constructor
  · intro h
    obtain ⟨f, hsplit, hf⟩ := List.map_eq_singleton_iff.mp h
    have hcs : cs = f := calc
      cs = [','].intercalate (cs.splitOn ',') := (List.intercalate_splitOn ',').symm
      _ = f := by rw [hsplit, List.intercalate_singleton]
    rw [hcs]
    exact Text.trim_eq_nil_iff.mp hf
  · intro h
    rw [tokens_of_not_mem (comma_not_mem_of_blanks h), Text.trim_of_blanks h]

/-- Read the token at an index. -/
def readToken (token : List Char) (index : Nat) : Except TextError Int :=
  match Decimal.read? token with
  | some v => .ok v
  | none => .error ⟨index, String.ofList token⟩

/-- Read the tokens in order, the first one at a given index. -/
def readTokens (ts : List (List Char)) (first : Nat) : Except TextError (List Int) :=
  (ts.zipIdx first).mapM fun (t, i) => readToken t i

theorem readTokens_cons (t : List Char) (ts : List (List Char)) (first : Nat) :
    readTokens (t :: ts) first = do
      let v ← readToken t first
      let vs ← readTokens ts (first + 1)
      return v :: vs := by
  rw [readTokens, List.zipIdx_cons, List.mapM_cons]
  rfl

theorem readToken_eq_ok {t : List Char} {i : Nat} {v : Int} :
    readToken t i = .ok v ↔ Decimal.Literal t v := by
  rw [← Decimal.read?_eq_some, readToken]
  cases Decimal.read? t <;> simp

theorem readToken_eq_error {t : List Char} {i : Nat} {e : TextError} :
    readToken t i = .error e ↔ e = ⟨i, String.ofList t⟩ ∧ ∀ v, ¬ Decimal.Literal t v := by
  rw [← Decimal.read?_eq_none, readToken]
  cases Decimal.read? t <;> simp [eq_comm]

/-- The tokens are read if each of them is an integer. -/
theorem readTokens_eq_ok {ts : List (List Char)} {first : Nat} {vs : List Int} :
    readTokens ts first = .ok vs ↔ List.Forall₂ Decimal.Literal ts vs := by
  induction ts generalizing first vs with
  | nil =>
      rw [List.forall₂_nil_left_iff]
      exact ⟨fun h => (Except.ok.inj h).symm, fun h => congrArg Except.ok h.symm⟩
  | cons t ts ih =>
      simp only [readTokens_cons, except_bind_eq_ok, readToken_eq_ok, ih]
      constructor
      · rintro ⟨v, hv, rest, hrest, h⟩
        cases h
        exact .cons hv hrest
      · intro h
        cases h with
        | cons hv hrest => exact ⟨_, hv, _, hrest, rfl⟩

/-- The token at an index is no integer, and those before it are. -/
def FirstBad (ts : List (List Char)) (index : Nat) (t : List Char) : Prop :=
  ts[index]? = some t ∧ (∀ v, ¬ Decimal.Literal t v) ∧
    ∀ k < index, ∀ u, ts[k]? = some u → ∃ v, Decimal.Literal u v

theorem firstBad_cons_zero {t u : List Char} {ts : List (List Char)} :
    FirstBad (t :: ts) 0 u ↔ t = u ∧ ∀ v, ¬ Decimal.Literal u v := by
  simp [FirstBad]

theorem firstBad_cons_succ {t u : List Char} {ts : List (List Char)} {j : Nat} :
    FirstBad (t :: ts) (j + 1) u ↔ (∃ v, Decimal.Literal t v) ∧ FirstBad ts j u := by
  constructor
  · rintro ⟨hu, hnot, hbefore⟩
    exact ⟨hbefore 0 (Nat.succ_pos j) t rfl, hu, hnot,
      fun k hk => hbefore (k + 1) (Nat.succ_lt_succ hk)⟩
  · rintro ⟨ht, hu, hnot, hbefore⟩
    refine ⟨hu, hnot, ?_⟩
    intro k hk w hw
    cases k with
    | zero =>
        cases hw
        exact ht
    | succ k => exact hbefore k (Nat.lt_of_succ_lt_succ hk) w hw

/-- The first token that is no integer is reported. -/
theorem readTokens_eq_error {ts : List (List Char)} {first : Nat} {e : TextError} :
    readTokens ts first = .error e ↔
      ∃ j t, FirstBad ts j t ∧ e = ⟨first + j, String.ofList t⟩ := by
  induction ts generalizing first e with
  | nil =>
      constructor
      · intro h
        cases h
      · rintro ⟨j, t, ⟨h, -⟩, -⟩
        cases h
  | cons t ts ih =>
      simp only [readTokens_cons, except_bind_eq_error, readToken_eq_error, readToken_eq_ok, ih]
      constructor
      · rintro (⟨rfl, ht⟩ | ⟨v, hv, ⟨j, u, hbad, rfl⟩ | ⟨rest, -, h⟩⟩)
        · exact ⟨0, t, firstBad_cons_zero.mpr ⟨rfl, ht⟩, rfl⟩
        · refine ⟨j + 1, u, firstBad_cons_succ.mpr ⟨⟨v, hv⟩, hbad⟩, ?_⟩
          rw [Nat.add_right_comm, Nat.add_assoc]
        · cases h
      · rintro ⟨j, u, hbad, rfl⟩
        cases j with
        | zero =>
            obtain ⟨rfl, hnot⟩ := firstBad_cons_zero.mp hbad
            exact .inl ⟨rfl, hnot⟩
        | succ j =>
            obtain ⟨⟨v, hv⟩, hbad⟩ := firstBad_cons_succ.mp hbad
            refine .inr ⟨v, hv, .inl ⟨j, u, hbad, ?_⟩⟩
            rw [Nat.add_right_comm, Nat.add_assoc]

/-- A blank text is the empty program. -/
theorem parse_of_blanks {text : String} (h : Blanks text.toList) : parse text = .ok ⟨#[]⟩ := by
  rw [parse, Text.trim_of_blanks h]

/-- A text that is not blank is read token by token. -/
theorem parse_of_not_blanks {text : String} (h : ¬ Blanks text.toList) :
    parse text = do return ofList (← readTokens (tokens text.toList) 0) := by
  have hbody : tokens (trim text.toList) = tokens text.toList :=
    (tokens_of_pads (Text.pads_trim text.toList)).symm
  rw [parse]
  split
  · next hnil => exact absurd (Text.trim_eq_nil_iff.mp hnil) h
  · rw [← hbody, readTokens, tokens, List.zipIdx_map, List.mapM_map, fields_eq_splitOn]
    rfl

theorem parse_eq_ok {text : String} (h : ¬ Blanks text.toList) {p : Program} :
    parse text = .ok p ↔ List.Forall₂ Decimal.Literal (tokens text.toList) p.image.toList := by
  rw [parse_of_not_blanks h, except_bind_eq_ok]
  constructor
  · rintro ⟨vs, hvs, hp⟩
    cases hp
    exact readTokens_eq_ok.mp hvs
  · intro hp
    exact ⟨p.image.toList, readTokens_eq_ok.mpr hp, rfl⟩

theorem parse_eq_error {text : String} (h : ¬ Blanks text.toList) {e : TextError} :
    parse text = .error e ↔
      ∃ t, FirstBad (tokens text.toList) e.index t ∧ e.token = String.ofList t := by
  rw [parse_of_not_blanks h, except_bind_eq_error, readTokens_eq_error]
  constructor
  · rintro (⟨j, t, hbad, rfl⟩ | ⟨vs, -, hvs⟩)
    · rw [Nat.zero_add]
      exact ⟨t, hbad, rfl⟩
    · cases hvs
  · rintro ⟨t, hbad, htoken⟩
    refine .inl ⟨e.index, t, hbad, ?_⟩
    rw [Nat.zero_add, ← htoken]

/-- What is read depends on the tokens alone. -/
theorem parse_congr {text other : String} (h : tokens other.toList = tokens text.toList) :
    parse other = parse text := by
  have hblanks : Blanks other.toList ↔ Blanks text.toList := by
    rw [← tokens_eq_singleton_nil, h, tokens_eq_singleton_nil]
  by_cases htext : Blanks text.toList
  · rw [parse_of_blanks htext, parse_of_blanks (hblanks.mpr htext)]
  · rw [parse_of_not_blanks htext, parse_of_not_blanks (mt hblanks.mp htext), h]

/-- Blanks around the fields of a text do not change its tokens. -/
theorem tokens_intercalate_splitOn {cs : List Char} {padded : List (List Char)}
    (h : List.Forall₂ Pads (cs.splitOn ',') padded) :
    tokens ([','].intercalate padded) = tokens cs :=
  tokens_intercalate (List.splitOnP_ne_nil (· == ',') cs) h fun _ => comma_not_mem_of_mem_splitOn

theorem not_literal_nil (v : Int) : ¬ Decimal.Literal [] v := by
  intro h
  cases h with
  | unsigned h => exact h.ne_nil rfl

/-- A text of blanks alone is the empty program. Any other text is the program whose cells its
tokens denote; if there is none, then the first token that is no integer is reported. Blanks around
the text or around what stands between its commas make no difference, and a token without characters
is an error. -/
theorem parse_follows_grammar (text : String) :
    (Blanks text.toList → parse text = .ok ⟨#[]⟩) ∧
    (¬ Blanks text.toList →
      (∀ p, parse text = .ok p ↔
        List.Forall₂ Decimal.Literal (tokens text.toList) p.image.toList) ∧
      (∀ e, parse text = .error e ↔
        ∃ t, FirstBad (tokens text.toList) e.index t ∧ e.token = String.ofList t) ∧
      ∀ i, (tokens text.toList)[i]? = some [] → (∀ p, parse text ≠ .ok p) ∧
        ((∀ k < i, ∀ u, (tokens text.toList)[k]? = some u → ∃ v, Decimal.Literal u v) →
          parse text = .error ⟨i, ""⟩)) ∧
    (∀ padded, Pads text.toList padded → parse (String.ofList padded) = parse text) ∧
    ∀ padded, List.Forall₂ Pads (text.toList.splitOn ',') padded →
      parse (String.ofList ([','].intercalate padded)) = parse text := by
  refine ⟨parse_of_blanks, ?_, ?_, ?_⟩
  · intro h
    refine ⟨fun p => parse_eq_ok h, fun e => parse_eq_error h, ?_⟩
    intro i hi
    constructor
    · intro p hp
      rw [parse_eq_ok h, List.forall₂_iff_get] at hp
      obtain ⟨hlength, hread⟩ := hp
      obtain ⟨hlt, htoken⟩ := List.getElem?_eq_some_iff.mp hi
      have hliteral := hread i hlt (hlength ▸ hlt)
      rw [List.get_eq_getElem, htoken] at hliteral
      exact not_literal_nil _ hliteral
    · intro hbefore
      exact (parse_eq_error h).mpr ⟨[], ⟨hi, not_literal_nil, hbefore⟩, rfl⟩
  · intro padded h
    apply parse_congr
    rw [String.toList_ofList, tokens_of_pads h]
  · intro padded h
    apply parse_congr
    rw [String.toList_ofList, tokens_intercalate_splitOn h]

/-- Signs, underscores and blanks in a program, and a token without characters in a text that is
none. -/
theorem parse_follows_grammar_mixed :
    ¬ Blanks " 1, +2_0,\t-3 \n".toList ∧ parse " 1, +2_0,\t-3 \n" = .ok ⟨#[1, 20, -3]⟩ ∧
      ¬ Blanks "4,,x".toList ∧ parse "4,,x" = .error ⟨1, ""⟩ := by
  have hmixed : ¬ Blanks " 1, +2_0,\t-3 \n".toList := by
    intro h
    have hone : Text.isBlank '1' = true := h '1' (by decide)
    revert hone
    decide
  have hempty : ¬ Blanks "4,,x".toList := by
    intro h
    have hfour : Text.isBlank '4' = true := h '4' (by decide)
    revert hfour
    decide
  have hread {t : List Char} {v : Int} (h : Decimal.read? t = some v) : Decimal.Literal t v :=
    Decimal.read?_eq_some.mp h
  refine ⟨hmixed, ?_, hempty, ?_⟩
  · apply (((parse_follows_grammar _).2.1 hmixed).1 _).mpr
    have htokens : tokens " 1, +2_0,\t-3 \n".toList =
        [['1'], ['+', '2', '_', '0'], ['-', '3']] := by
      decide
    rw [htokens]
    exact .cons (hread (by decide)) (.cons (hread (by decide)) (.cons (hread (by decide)) .nil))
  · have htokens : tokens "4,,x".toList = [['4'], [], ['x']] := by
      decide
    apply (((parse_follows_grammar _).2.1 hempty).2.2 1 (by rw [htokens]; rfl)).2
    intro k hk u hu
    rw [htokens] at hu
    obtain rfl : k = 0 := Nat.lt_one_iff.mp hk
    cases hu
    exact ⟨4, hread (by decide)⟩

/-- The decimal form of a cell. -/
def cellText (v : Int) : List Char := (toString v).toList

theorem literal_cellText (v : Int) : Decimal.Literal (cellText v) v :=
  Decimal.read?_eq_some.mp (Decimal.read?_toString v)

theorem mem_cellText {v : Int} {c : Char} (h : c ∈ cellText v) :
    c ≠ ',' ∧ Text.isBlank c = false := by
  rcases Decimal.isDigit_or_sign h with h | rfl
  · refine ⟨?_, Text.isBlank_of_isDigit h⟩
    rintro rfl
    cases h
  · decide

theorem trim_cellText (v : Int) : trim (cellText v) = cellText v :=
  Text.trim_of_not_blank fun _ hc => (mem_cellText hc).2

/-- The texts that a program may be written as: its cells with commas between them and blanks around
each of them, or blanks alone if there are no cells. -/
inductive Written : Program → String → Prop
  | blank {text : String} (h : Blanks text.toList) : Written ⟨#[]⟩ text
  | cells {p : Program} {padded : List (List Char)} (hne : p.image ≠ #[])
      (h : List.Forall₂ Pads (p.image.toList.map cellText) padded) :
      Written p (String.ofList ([','].intercalate padded))

/-- The text of a program without blanks is among them. -/
theorem written_text (p : Program) : Written p p.text := by
  by_cases hne : p.image = #[]
  · obtain ⟨image⟩ := p
    subst hne
    exact .blank Text.blanks_nil
  · have htext : p.text = String.ofList ([','].intercalate (p.image.toList.map cellText)) := by
      rw [← String.toList_inj, String.toList_ofList, text, String.toList_intercalate, List.map_map]
      rfl
    rw [htext]
    exact .cells hne (List.forall₂_same.mpr fun f _ => Text.pads_refl f)

theorem parse_of_written {p : Program} {text : String} (h : Written p text) :
    parse text = .ok p := by
  cases h with
  | blank h => exact parse_of_blanks h
  | @cells _ padded hne h =>
      have hcells : p.image.toList.map cellText ≠ [] := by
        simpa using hne
      have htokens : tokens ([','].intercalate padded) = p.image.toList.map cellText := by
        rw [tokens_intercalate hcells h, List.map_map]
        · exact List.map_congr_left fun v _ => trim_cellText v
        · intro f hf
          obtain ⟨v, -, rfl⟩ := List.mem_map.mp hf
          exact fun hc => (mem_cellText hc).1 rfl
      have hread : List.Forall₂ Decimal.Literal (tokens ([','].intercalate padded))
          p.image.toList := by
        rw [htokens, List.forall₂_map_left_iff]
        exact List.forall₂_same.mpr fun v _ => literal_cellText v
      rw [← String.toList_ofList (l := [','].intercalate padded)] at hread
      refine (parse_eq_ok ?_).mpr hread
      -- A blank text has an empty token, which is no integer.
      intro hblanks
      rw [tokens_eq_singleton_nil.mpr hblanks] at hread
      obtain ⟨v, -, hv, -⟩ := List.forall₂_cons_left_iff.mp hread
      exact not_literal_nil v hv

/-- A program is read back from each of its written texts, whatever its cells are and whatever
blanks are put around them. So no text is that of two programs. -/
theorem written_round_trip :
    (∀ p, Written p p.text) ∧
    (∀ p text, Written p text → parse text = .ok p) ∧
    ∀ p q text, Written p text → Written q text → p = q := by
  refine ⟨written_text, fun p text h => parse_of_written h, ?_⟩
  intro p q text hp hq
  exact Except.ok.inj ((parse_of_written hp).symm.trans (parse_of_written hq))

/-- Two cells with blanks of several kinds around them. -/
theorem written_round_trip_blanks :
    Written ⟨#[-7, 12]⟩ "\u00a0-7\t,12 \n" ∧ parse "\u00a0-7\t,12 \n" = .ok ⟨#[-7, 12]⟩ := by
  have hwritten : Written ⟨#[-7, 12]⟩
      (String.ofList ([','].intercalate [['\u00a0', '-', '7', '\t'], ['1', '2', ' ', '\n']])) := by
    have hfirst : Pads ['-', '7'] ['\u00a0', '-', '7', '\t'] :=
      ⟨['\u00a0'], ['\t'], List.all_eq_true.mp rfl, List.all_eq_true.mp rfl, rfl⟩
    have hsecond : Pads ['1', '2'] ['1', '2', ' ', '\n'] :=
      ⟨[], [' ', '\n'], Text.blanks_nil, List.all_eq_true.mp rfl, rfl⟩
    exact .cells (by decide) (.cons hfirst (.cons hsecond .nil))
  exact ⟨hwritten, written_round_trip.2.1 _ _ hwritten⟩

end Intcode.Program
