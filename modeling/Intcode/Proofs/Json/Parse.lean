import Intcode.Json.Parse
import Intcode.Json.Print
import Intcode.Proofs.Json.Token

/-!
# Reading what was written

The tokens of a value make up that value and no other, and the text that is laid out for it spells
these tokens, as does the text without blanks. So a value that is written on lines or without blanks
is read back.
-/

namespace Intcode.Json

/-- A value may begin an array, since it does not begin with the end of one. -/
theorem foldlM_element (v : Json) (stack : List Frame) (more : List Token) :
    (v.tokens ++ more).foldlM advance (.element, .array [] :: stack) =
      (v.tokens ++ more).foldlM advance (.value, .array [] :: stack) := by
  cases v with
  | null | bool b | integer n | decimal literal | text s => simp only [tokens]; rfl
  | array vs => cases vs <;> simp only [tokens] <;> rfl
  | object fs => cases fs <;> simp only [tokens] <;> rfl

mutual

/-- The tokens of a value are taken up to the end of the value. -/
theorem foldlM_tokens (v : Json) (stack : List Frame) (more : List Token) :
    (v.tokens ++ more).foldlM advance (.value, stack) =
      more.foldlM advance (.after v, stack) := by
  match v with
  | null | bool b | integer n | decimal literal | text s => rw [tokens]; rfl
  | array [] => rw [tokens]; rfl
  | array (v :: vs) =>
      rw [tokens, List.append_assoc]
      change (v.tokens ++ (moreElements vs ++ more)).foldlM advance (.element, .array [] :: stack) =
        _
      rw [foldlM_element, foldlM_tokens v, foldlM_moreElements vs]
      rfl
  | object [] => rw [tokens]; rfl
  | object ((k, v) :: fs) =>
      rw [tokens, List.append_assoc]
      change (v.tokens ++ (moreFields fs ++ more)).foldlM advance (.value, .object [] k :: stack) =
        _
      rw [foldlM_tokens v, foldlM_moreFields fs]
      rfl

theorem foldlM_moreElements (vs : List Json) (v : Json) (done : List Json) (stack : List Frame)
    (more : List Token) :
    (moreElements vs ++ more).foldlM advance (.after v, .array done :: stack) =
      more.foldlM advance (.after (.array (done.reverse ++ v :: vs)), stack) := by
  match vs with
  | [] =>
      rw [moreElements, ← List.reverse_cons]
      rfl
  | w :: vs =>
      rw [moreElements, List.append_assoc]
      change (w.tokens ++ (moreElements vs ++ more)).foldlM advance
        (.value, .array (v :: done) :: stack) = _
      rw [foldlM_tokens w, foldlM_moreElements vs, List.reverse_cons, List.append_assoc]
      rfl

theorem foldlM_moreFields (fs : Fields) (k : Option String) (v : Json) (done : Fields)
    (stack : List Frame) (more : List Token) :
    (moreFields fs ++ more).foldlM advance (.after v, .object done k :: stack) =
      more.foldlM advance (.after (.object (done.reverse ++ (k, v) :: fs)), stack) := by
  match fs with
  | [] =>
      rw [moreFields, ← List.reverse_cons]
      rfl
  | (l, w) :: fs =>
      rw [moreFields, List.append_assoc]
      change (w.tokens ++ (moreFields fs ++ more)).foldlM advance
        (.value, .object ((k, v) :: done) l :: stack) = _
      rw [foldlM_tokens w, foldlM_moreFields fs, List.reverse_cons, List.append_assoc]
      rfl

end

/-- The tokens of a value make up the value. -/
theorem ofTokens?_tokens (v : Json) : ofTokens? v.tokens = some v := by
  have h := foldlM_tokens v [] []
  rw [List.append_nil] at h
  rw [ofTokens?, h]
  rfl

theorem parse?_of_spells {v : Json} {s : String} (h : Spells v.tokens s.toList) :
    parse? s = some v := by
  rw [parse?, h.tokenize?_eq]
  exact ofTokens?_tokens v

theorem spells_of_blanks {cs : List Char} (h : ∀ c ∈ cs, isSpace c = true) : Spells [] cs := by
  induction cs with
  | nil => exact .nil
  | cons c cs ih => exact .space (h c List.mem_cons_self) (ih fun d hd => h d (.tail c hd))

theorem endsWord_of_blanks {cs : List Char} (h : ∀ c ∈ cs, isSpace c = true) : EndsWord cs := by
  intro c hc
  have hspace := h c (List.mem_of_head? hc)
  rw [Bool.eq_false_iff]
  intro hword
  rw [isSpace_of_isWordChar hword] at hspace
  cases hspace

theorem Spells.line {ts : List Token} {cs : List Char} (depth : Nat) (h : Spells ts cs) :
    Spells ts ((Piece.line depth).spell ++ cs) := by
  apply Spells.space rfl
  induction 2 * depth with
  | zero => exact h
  | succ width ih => exact .space rfl ih

theorem endsWord_layoutElements (depth : Nat) (vs : List Json) (cs : List Char) :
    EndsWord ((layoutElements depth vs).flatMap Piece.spell ++ cs) := by
  cases vs <;> rw [layoutElements] <;> exact endsWord_cons _ (by decide)

theorem endsWord_layoutFields (depth : Nat) (fs : Fields) (cs : List Char) :
    EndsWord ((layoutFields depth fs).flatMap Piece.spell ++ cs) := by
  rcases fs with _ | ⟨⟨k, v⟩, fs⟩ <;> rw [layoutFields] <;> exact endsWord_cons _ (by decide)

mutual

/-- A value that is laid out spells its tokens. -/
theorem spells_layout (v : Json) (depth : Nat) {ts : List Token} {cs : List Char}
    (hv : ∀ t ∈ v.tokens, t.Legible) (hends : EndsWord cs) (h : Spells ts cs) :
    Spells (v.tokens ++ ts) ((v.layout depth).flatMap Piece.spell ++ cs) := by
  match v with
  | null | bool b | integer n | decimal literal | text s =>
      rw [tokens] at hv ⊢
      rw [layout, List.flatMap_singleton]
      exact .token (hv _ List.mem_cons_self) (fun _ => hends) h
  | array [] =>
      rw [tokens, layout]
      exact .token trivial nofun (.token trivial nofun h)
  | array (v :: vs) =>
      rw [tokens] at hv ⊢
      rw [layout]
      simp only [List.cons_append, List.flatMap_cons, List.flatMap_append, List.append_assoc]
      refine .token trivial nofun (.line _ ?_)
      have hvs := spells_layoutElements vs depth (fun t ht => hv t (by simp [ht])) h
      exact spells_layout v (depth + 1) (fun t ht => hv t (by simp [ht]))
        (endsWord_layoutElements depth vs cs) hvs
  | object [] =>
      rw [tokens, layout]
      exact .token trivial nofun (.token trivial nofun h)
  | object ((k, v) :: fs) =>
      rw [tokens] at hv ⊢
      rw [layout]
      simp only [List.cons_append, List.flatMap_cons, List.flatMap_append, List.append_assoc]
      refine .token trivial nofun (.line _ (.token trivial nofun (.token trivial nofun
        (.space rfl ?_))))
      have hfs := spells_layoutFields fs depth (fun t ht => hv t (by simp [ht])) h
      exact spells_layout v (depth + 1) (fun t ht => hv t (by simp [ht]))
        (endsWord_layoutFields depth fs cs) hfs

theorem spells_layoutElements (vs : List Json) (depth : Nat) {ts : List Token} {cs : List Char}
    (hvs : ∀ t ∈ moreElements vs, t.Legible) (h : Spells ts cs) :
    Spells (moreElements vs ++ ts) ((layoutElements depth vs).flatMap Piece.spell ++ cs) := by
  match vs with
  | [] =>
      rw [moreElements, layoutElements]
      simp only [List.flatMap_cons, List.flatMap_nil, List.append_assoc, List.nil_append]
      exact .line depth (.token trivial nofun h)
  | v :: vs =>
      rw [moreElements] at hvs ⊢
      rw [layoutElements]
      simp only [List.cons_append, List.flatMap_cons, List.flatMap_append, List.append_assoc]
      refine .token trivial nofun (.line _ ?_)
      have hrest := spells_layoutElements vs depth (fun t ht => hvs t (by simp [ht])) h
      exact spells_layout v (depth + 1) (fun t ht => hvs t (by simp [ht]))
        (endsWord_layoutElements depth vs cs) hrest

theorem spells_layoutFields (fs : Fields) (depth : Nat) {ts : List Token} {cs : List Char}
    (hfs : ∀ t ∈ moreFields fs, t.Legible) (h : Spells ts cs) :
    Spells (moreFields fs ++ ts) ((layoutFields depth fs).flatMap Piece.spell ++ cs) := by
  match fs with
  | [] =>
      rw [moreFields, layoutFields]
      simp only [List.flatMap_cons, List.flatMap_nil, List.append_assoc, List.nil_append]
      exact .line depth (.token trivial nofun h)
  | (k, v) :: fs =>
      rw [moreFields] at hfs ⊢
      rw [layoutFields]
      simp only [List.cons_append, List.flatMap_cons, List.flatMap_append, List.append_assoc]
      refine .token trivial nofun (.line _ (.token trivial nofun (.token trivial nofun
        (.space rfl ?_))))
      have hrest := spells_layoutFields fs depth (fun t ht => hfs t (by simp [ht])) h
      exact spells_layout v (depth + 1) (fun t ht => hfs t (by simp [ht]))
        (endsWord_layoutFields depth fs cs) hrest

end

/-- A value that is written on lines spells its tokens, also with blanks behind it. -/
theorem spells_pretty {v : Json} {blanks : String} (hv : ∀ t ∈ v.tokens, t.Legible)
    (h : ∀ c ∈ blanks.toList, isSpace c = true) :
    Spells v.tokens (v.pretty ++ blanks).toList := by
  rw [pretty, String.toList_append, String.toList_ofList, ← List.append_nil v.tokens]
  exact spells_layout v 0 hv (endsWord_of_blanks h) (spells_of_blanks h)

/-- A value that is written on lines is read back. -/
theorem parse?_pretty {v : Json} {blanks : String} (hv : ∀ t ∈ v.tokens, t.Legible)
    (h : ∀ c ∈ blanks.toList, isSpace c = true) : parse? (v.pretty ++ blanks) = some v :=
  parse?_of_spells (spells_pretty hv h)

theorem endsWord_moreElements (vs : List Json) (cs : List Char) :
    EndsWord ((moreElements vs).flatMap Token.spell ++ cs) := by
  cases vs <;> rw [moreElements] <;> exact endsWord_cons _ (by decide)

theorem endsWord_moreFields (fs : Fields) (cs : List Char) :
    EndsWord ((moreFields fs).flatMap Token.spell ++ cs) := by
  rcases fs with _ | ⟨⟨k, v⟩, fs⟩ <;> rw [moreFields] <;> exact endsWord_cons _ (by decide)

mutual

/-- The tokens of a value may be written without anything between them. -/
theorem spells_tokens (v : Json) {ts : List Token} {cs : List Char}
    (hv : ∀ t ∈ v.tokens, t.Legible) (hends : EndsWord cs) (h : Spells ts cs) :
    Spells (v.tokens ++ ts) (v.tokens.flatMap Token.spell ++ cs) := by
  match v with
  | null | bool b | integer n | decimal literal | text s =>
      rw [tokens] at hv ⊢
      rw [List.flatMap_singleton]
      exact .token (hv _ List.mem_cons_self) (fun _ => hends) h
  | array [] =>
      rw [tokens]
      exact .token trivial nofun (.token trivial nofun h)
  | array (v :: vs) =>
      rw [tokens] at hv ⊢
      simp only [List.cons_append, List.flatMap_cons, List.flatMap_append, List.append_assoc]
      refine .token trivial nofun ?_
      have hvs := spells_moreElements vs (fun t ht => hv t (by simp [ht])) h
      exact spells_tokens v (fun t ht => hv t (by simp [ht])) (endsWord_moreElements vs cs) hvs
  | object [] =>
      rw [tokens]
      exact .token trivial nofun (.token trivial nofun h)
  | object ((k, v) :: fs) =>
      rw [tokens] at hv ⊢
      simp only [List.cons_append, List.flatMap_cons, List.flatMap_append, List.append_assoc]
      refine .token trivial nofun (.token trivial nofun (.token trivial nofun ?_))
      have hfs := spells_moreFields fs (fun t ht => hv t (by simp [ht])) h
      exact spells_tokens v (fun t ht => hv t (by simp [ht])) (endsWord_moreFields fs cs) hfs

theorem spells_moreElements (vs : List Json) {ts : List Token} {cs : List Char}
    (hvs : ∀ t ∈ moreElements vs, t.Legible) (h : Spells ts cs) :
    Spells (moreElements vs ++ ts) ((moreElements vs).flatMap Token.spell ++ cs) := by
  match vs with
  | [] =>
      rw [moreElements]
      exact .token trivial nofun h
  | v :: vs =>
      rw [moreElements] at hvs ⊢
      simp only [List.cons_append, List.flatMap_cons, List.flatMap_append, List.append_assoc]
      refine .token trivial nofun ?_
      have hrest := spells_moreElements vs (fun t ht => hvs t (by simp [ht])) h
      exact spells_tokens v (fun t ht => hvs t (by simp [ht])) (endsWord_moreElements vs cs) hrest

theorem spells_moreFields (fs : Fields) {ts : List Token} {cs : List Char}
    (hfs : ∀ t ∈ moreFields fs, t.Legible) (h : Spells ts cs) :
    Spells (moreFields fs ++ ts) ((moreFields fs).flatMap Token.spell ++ cs) := by
  match fs with
  | [] =>
      rw [moreFields]
      exact .token trivial nofun h
  | (k, v) :: fs =>
      rw [moreFields] at hfs ⊢
      simp only [List.cons_append, List.flatMap_cons, List.flatMap_append, List.append_assoc]
      refine .token trivial nofun (.token trivial nofun (.token trivial nofun ?_))
      have hrest := spells_moreFields fs (fun t ht => hfs t (by simp [ht])) h
      exact spells_tokens v (fun t ht => hfs t (by simp [ht])) (endsWord_moreFields fs cs) hrest

end

/-- A value that is written without blanks is read back. -/
theorem parse?_compact {v : Json} (hv : ∀ t ∈ v.tokens, t.Legible) :
    parse? v.compact = some v := by
  have hends : EndsWord [] := endsWord_of_blanks fun _ h => absurd h List.not_mem_nil
  have h := spells_tokens v hv hends .nil
  rw [List.append_nil, List.append_nil] at h
  apply parse?_of_spells
  rwa [compact, String.toList_ofList]

theorem legible_integer (n : Int) : ∀ t ∈ (integer n).tokens, t.Legible := by
  rw [tokens]
  exact List.forall_mem_singleton.mpr trivial

theorem legible_moreElements {vs : List Json} (h : ∀ v ∈ vs, ∀ t ∈ v.tokens, t.Legible) :
    ∀ t ∈ moreElements vs, t.Legible := by
  induction vs with
  | nil => exact List.forall_mem_singleton.mpr trivial
  | cons v vs ih =>
      rw [moreElements, List.cons_append, List.forall_mem_cons, List.forall_mem_append]
      exact ⟨trivial, h v List.mem_cons_self, ih fun w hw => h w (.tail v hw)⟩

/-- The tokens of an array can be read back if those of its elements can. -/
theorem legible_array {vs : List Json} (h : ∀ v ∈ vs, ∀ t ∈ v.tokens, t.Legible) :
    ∀ t ∈ (array vs).tokens, t.Legible := by
  cases vs with
  | nil =>
      rw [tokens]
      exact List.forall_mem_cons.mpr ⟨trivial, List.forall_mem_singleton.mpr trivial⟩
  | cons v vs =>
      rw [tokens, List.cons_append, List.forall_mem_cons, List.forall_mem_append]
      exact ⟨trivial, h v List.mem_cons_self, legible_moreElements fun w hw => h w (.tail v hw)⟩

theorem toList_compact (v : Json) : v.compact.toList = v.tokens.flatMap Token.spell := by
  rw [compact, String.toList_ofList]

theorem compact_integer (n : Int) : (integer n).compact = toString n := by
  rw [← String.toList_inj, toList_compact, tokens, List.flatMap_singleton]
  rfl

theorem spell_moreElements (v : Json) (vs : List Json) :
    v.tokens.flatMap Token.spell ++ (moreElements vs).flatMap Token.spell =
      [','].intercalate ((v :: vs).map fun w => w.compact.toList) ++ [']'] := by
  induction vs generalizing v with
  | nil =>
      rw [moreElements, ← toList_compact, List.map_singleton, List.intercalate_singleton]
      rfl
  | cons w vs ih =>
      rw [moreElements, List.cons_append, List.flatMap_cons, List.flatMap_append, ih w]
      simp only [List.map_cons, List.intercalate_cons_cons, ← toList_compact, List.append_assoc]
      rfl

/-- An array is written as its elements with commas between them. -/
theorem compact_array (vs : List Json) :
    (array vs).compact = "[" ++ ",".intercalate (vs.map compact) ++ "]" := by
  rw [← String.toList_inj, toList_compact, String.toList_append, String.toList_append,
    String.toList_intercalate, List.map_map]
  cases vs with
  | nil =>
      rw [tokens]
      rfl
  | cons v vs =>
      rw [tokens, List.cons_append, List.flatMap_cons, List.flatMap_append, spell_moreElements]
      rfl

end Intcode.Json
