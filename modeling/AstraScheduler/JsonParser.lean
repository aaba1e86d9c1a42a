import AstraScheduler.JsonGrammar

/-! # Reading a JSON text back

A parser for the grammar of `JsonGrammar`, with fuel for its recursion.  It accepts what the
grammar derives and gives the value of the derivation, whatever stands behind the text
(`parseValue_of_isValue`, `parse_of_isDocument`).  What it makes of a text outside of the
grammar is left open: it checks no escape and no number.

The fuel bounds the depth and the number of members; the length of the text is enough. -/

namespace JsonGrammar

def isBlank (c : Char) : Bool := c = ' ' || c = '\n' || c = '\r' || c = '\t'

def skipBlank (t : List Char) : List Char := t.dropWhile isBlank

/-- A character that may stand in a number. -/
def isNumeric (c : Char) : Bool :=
  c.isDigit || c = '-' || c = '+' || c = '.' || c = 'e' || c = 'E'

/-- From behind the opening quote: what stands in the string, and what is behind it. -/
def takeString : List Char → Option (List Char × List Char)
  | [] => none
  | '"' :: rest => some ([], rest)
  | '\\' :: c :: rest => (takeString rest).map fun (s, rest) => ('\\' :: c :: s, rest)
  | c :: rest => (takeString rest).map fun (s, rest) => (c :: s, rest)

/-- One of the three words of the grammar. -/
def takeWord (t : List Char) : Option (Value × List Char) :=
  match t with
  | 'n' :: 'u' :: 'l' :: 'l' :: rest => some (.null, rest)
  | 't' :: 'r' :: 'u' :: 'e' :: rest => some (.bool true, rest)
  | 'f' :: 'a' :: 'l' :: 's' :: 'e' :: rest => some (.bool false, rest)
  | _ => none

mutual

/-- The value a text begins with, and what is behind it. -/
def parseValue : Nat → List Char → Option (Value × List Char)
  | 0, _ => none
  | _ + 1, [] => none
  | fuel + 1, c :: t =>
    if c = '"' then
      (takeString t).map fun (s, rest) => (.string s, rest)
    else if c = '[' then
      if (skipBlank t).head? = some ']' then some (.array [], (skipBlank t).tail)
      else (parseElements fuel t).map fun (vs, rest) => (.array vs, rest)
    else if c = '{' then
      if (skipBlank t).head? = some '}' then some (.object [], (skipBlank t).tail)
      else (parseMembers fuel t).map fun (ms, rest) => (.object ms, rest)
    else if isNumeric c then
      some (.number ((c :: t).takeWhile isNumeric), (c :: t).dropWhile isNumeric)
    else takeWord (c :: t)

/-- The elements up to the bracket that closes the array. -/
def parseElements : Nat → List Char → Option (List Value × List Char)
  | 0, _ => none
  | fuel + 1, t => do
    let (v, t) ← parseValue fuel (skipBlank t)
    match skipBlank t with
    | ',' :: t => (parseElements fuel t).map fun (vs, t) => (v :: vs, t)
    | ']' :: t => some ([v], t)
    | _ => none

/-- The members up to the brace that closes the object. -/
def parseMembers : Nat → List Char → Option (List (List Char × Value) × List Char)
  | 0, _ => none
  | fuel + 1, t => do
    let (k, t) ← takeString (skipBlank t).tail
    let (v, t) ← parseValue fuel (skipBlank (skipBlank t).tail)
    match skipBlank t with
    | ',' :: t => (parseMembers fuel t).map fun (ms, t) => ((k, v) :: ms, t)
    | '}' :: t => some ([(k, v)], t)
    | _ => none

end

/-- The value of a whole text. -/
def parse (text : List Char) : Option Value :=
  (parseValue (text.length + 1) (skipBlank text)).map Prod.fst

/-! ## Where the scanners stop -/

/-- What is behind a text does not continue a number. -/
def Follows (rest : List Char) : Prop := ∀ c ∈ rest.head?, isNumeric c = false

theorem Follows.nil : Follows [] := by
  intro c hc
  cases hc

theorem Follows.cons {c : Char} {t : List Char} (h : isNumeric c = false) : Follows (c :: t) := by
  intro d hd
  cases hd
  exact h

theorem isNumeric_of_blank {c : Char} (h : c = ' ' ∨ c = '\n' ∨ c = '\r' ∨ c = '\t') :
    isNumeric c = false := by
  rcases h with rfl | rfl | rfl | rfl <;> rfl

/-- Whitespace in front changes nothing for a text that may follow a value. -/
theorem Follows.blank {w t : List Char} (hw : Blank w) (ht : Follows t) : Follows (w ++ t) := by
  cases w with
  | nil => exact ht
  | cons c w => exact .cons (isNumeric_of_blank (hw c (List.mem_cons_self ..)))

/-- The text begins with a token. -/
def Begins (t : List Char) : Prop := ∃ c u, t = c :: u ∧ isBlank c = false

theorem skipBlank_of_begins {w t : List Char} (hw : Blank w) (ht : Begins t) :
    skipBlank (w ++ t) = t := by
  obtain ⟨c, u, rfl, hc⟩ := ht
  induction w with
  | nil => simp [skipBlank, hc]
  | cons d w ih =>
    have hd : isBlank d = true := by
      rcases hw d (List.mem_cons_self ..) with rfl | rfl | rfl | rfl <;> rfl
    have hrest := ih fun x hx => hw x (List.mem_cons_of_mem _ hx)
    simpa [skipBlank, hd] using hrest

theorem isNumeric_of_isDigit {c : Char} (h : c.isDigit = true) : isNumeric c = true := by
  simp [isNumeric, h]

theorem IsNumber.numeric {t : List Char} (h : IsNumber t) : ∀ c ∈ t, isNumeric c = true := by
  obtain @⟨sign, whole, frac, exp, hsign, hwhole, hfrac, hexp⟩ := h
  have hsigned : ∀ c ∈ sign, isNumeric c = true := by
    rcases hsign with rfl | rfl <;> simp [isNumeric]
  have hdigits : ∀ ds, Digits ds → ∀ c ∈ ds, isNumeric c = true :=
    fun ds hds c hc => isNumeric_of_isDigit (hds c hc)
  have hint : ∀ c ∈ whole, isNumeric c = true := by
    induction hwhole with
    | zero => simp [isNumeric]
    | digits hd h0 hds => exact List.forall_mem_cons.mpr ⟨isNumeric_of_isDigit hd, hdigits _ hds⟩
  have hpoint : ∀ c ∈ frac, isNumeric c = true := by
    induction hfrac with
    | none => simp
    | digits hne hds => exact List.forall_mem_cons.mpr ⟨rfl, hdigits _ hds⟩
  have hpower : ∀ c ∈ exp, isNumeric c = true := by
    induction hexp with
    | none => simp
    | @digits e sign ds he hsign hne hds =>
      have hletter : isNumeric e = true := by rcases he with rfl | rfl <;> rfl
      have hmark : ∀ c ∈ sign, isNumeric c = true := by
        rcases hsign with rfl | rfl | rfl <;> simp [isNumeric]
      exact List.forall_mem_cons.mpr ⟨hletter, List.forall_mem_append.mpr ⟨hmark, hdigits _ hds⟩⟩
  exact List.forall_mem_append.mpr ⟨List.forall_mem_append.mpr
    ⟨List.forall_mem_append.mpr ⟨hsigned, hint⟩, hpoint⟩, hpower⟩

theorem IsNumber.ne_nil {t : List Char} (h : IsNumber t) : t ≠ [] := by
  obtain @⟨sign, whole, frac, exp, -, hwhole, -, -⟩ := h
  induction hwhole <;> simp

/-- A number is taken whole, and nothing behind it. -/
theorem span_number {t rest : List Char} (h : ∀ c ∈ t, isNumeric c = true) (hrest : Follows rest) :
    (t ++ rest).takeWhile isNumeric = t ∧ (t ++ rest).dropWhile isNumeric = rest := by
  induction t with
  | nil =>
    cases rest with
    | nil => exact ⟨rfl, rfl⟩
    | cons c rest => simp [hrest c rfl]
  | cons c t ih =>
    obtain ⟨htake, hdrop⟩ := ih fun x hx => h x (List.mem_cons_of_mem _ hx)
    simp [h c (List.mem_cons_self ..), htake, hdrop]

/-- A character of a string that is neither its quote nor a backslash. -/
theorem takeString_plain {c : Char} {s t rest : List Char} (hquote : c ≠ '"') (hback : c ≠ '\\')
    (h : takeString t = some (s, rest)) : takeString (c :: t) = some (c :: s, rest) := by
  simp [takeString, hback, h]

theorem HexDigit.plain {c : Char} (h : HexDigit c) : c ≠ '"' ∧ c ≠ '\\' := by
  constructor <;> rintro rfl <;> exact absurd h (by decide)

/-- A string is read up to its closing quote. -/
theorem takeString_body {s : List Char} (rest : List Char) (h : StringBody s) :
    takeString (s ++ '"' :: rest) = some (s, rest) := by
  induction h with
  | nil => rfl
  | plain hquote hback hcontrol ht ih => exact takeString_plain hquote hback ih
  | escape hc ht ih => simp [takeString, ih]
  | unicode ha hb hc hd ht ih =>
    have hdigits := takeString_plain ha.plain.1 ha.plain.2
      (takeString_plain hb.plain.1 hb.plain.2
        (takeString_plain hc.plain.1 hc.plain.2 (takeString_plain hd.plain.1 hd.plain.2 ih)))
    simp [takeString, hdigits]

/-! ## What the grammar derives is accepted -/

theorem IsNumber.begins {t : List Char} (h : IsNumber t) :
    ∃ c u, t = c :: u ∧ isNumeric c = true := by
  cases t with
  | nil => exact absurd rfl h.ne_nil
  | cons c u => exact ⟨c, u, rfl, h.numeric c (List.mem_cons_self ..)⟩

/-- A character of a number is none of those that begin another token. -/
theorem isNumeric_ne {c : Char} (h : isNumeric c = true) :
    c ≠ '"' ∧ c ≠ '[' ∧ c ≠ '{' ∧ c ≠ ']' ∧ isBlank c = false := by
  refine ⟨?_, ?_, ?_, ?_, ?_⟩
  case refine_5 =>
    cases hb : isBlank c with
    | false => rfl
    | true =>
      have hblank : c = ' ' ∨ c = '\n' ∨ c = '\r' ∨ c = '\t' := by
        simpa [isBlank, or_assoc] using hb
      rw [isNumeric_of_blank hblank] at h
      cases h
  all_goals
    rintro rfl
    cases h

/-- A value begins with a token, and not with the bracket that would close an array. -/
theorem begins_of_isValue {v : Value} {t : List Char} (h : IsValue v t) :
    ∃ c u, t = c :: u ∧ isBlank c = false ∧ c ≠ ']' := by
  cases h with
  | number h =>
    obtain ⟨c, u, rfl, hc⟩ := h.begins
    obtain ⟨-, -, -, hclose, hblank⟩ := isNumeric_ne hc
    exact ⟨c, u, rfl, hblank, hclose⟩
  | _ => exact ⟨_, _, rfl, rfl, by decide⟩

theorem skipBlank_value {v : Value} {w t rest : List Char} (hw : Blank w) (h : IsValue v t) :
    skipBlank (w ++ (t ++ rest)) = t ++ rest := by
  obtain ⟨c, u, rfl, hblank, -⟩ := begins_of_isValue h
  exact skipBlank_of_begins hw ⟨c, u ++ rest, rfl, hblank⟩

theorem skipBlank_mark {w rest : List Char} (hw : Blank w) {c : Char} (hc : isBlank c = false) :
    skipBlank (w ++ c :: rest) = c :: rest :=
  skipBlank_of_begins hw ⟨c, rest, rfl, hc⟩

theorem parseValue_number {fuel : Nat} {t rest : List Char} (h : IsNumber t)
    (hrest : Follows rest) :
    parseValue (fuel + 1) (t ++ rest) = some (.number t, rest) := by
  obtain ⟨htake, hdrop⟩ := span_number h.numeric hrest
  obtain ⟨c, u, rfl, hc⟩ := h.begins
  obtain ⟨hquote, hopen, hbrace, -, -⟩ := isNumeric_ne hc
  rw [List.cons_append] at htake hdrop ⊢
  rw [parseValue, if_neg hquote, if_neg hopen, if_neg hbrace, if_pos hc, htake, hdrop]

theorem parseValue_string {fuel : Nat} {s : List Char} (rest : List Char) (h : StringBody s) :
    parseValue (fuel + 1) ('"' :: s ++ ['"'] ++ rest) = some (.string s, rest) := by
  have hbody := takeString_body rest h
  rw [List.cons_append, List.cons_append, List.append_assoc]
  rw [parseValue, if_pos rfl]
  change (takeString (s ++ '"' :: rest)).map _ = _
  rw [hbody]
  rfl

theorem parseValue_emptyArray {fuel : Nat} {w : List Char} (rest : List Char) (hw : Blank w) :
    parseValue (fuel + 1) ('[' :: w ++ [']'] ++ rest) = some (.array [], rest) := by
  have hskip : skipBlank (w ++ ([']'] ++ rest)) = ']' :: rest := skipBlank_mark hw rfl
  have hhead : (skipBlank (w ++ ([']'] ++ rest))).head? = some ']' := by rw [hskip]; rfl
  rw [List.cons_append, List.cons_append, List.append_assoc, parseValue, if_neg (by decide),
    if_pos rfl,
    if_pos hhead, hskip]
  rfl

theorem parseValue_emptyObject {fuel : Nat} {w : List Char} (rest : List Char) (hw : Blank w) :
    parseValue (fuel + 1) ('{' :: w ++ ['}'] ++ rest) = some (.object [], rest) := by
  have hskip : skipBlank (w ++ (['}'] ++ rest)) = '}' :: rest := skipBlank_mark hw rfl
  have hhead : (skipBlank (w ++ (['}'] ++ rest))).head? = some '}' := by rw [hskip]; rfl
  rw [List.cons_append, List.cons_append, List.append_assoc, parseValue, if_neg (by decide),
    if_neg (by decide), if_pos rfl,
    if_pos hhead, hskip]
  rfl

/-- The elements of an array do not begin with the bracket that closes an empty one. -/
theorem elements_head {vs : List Value} {t : List Char} (rest : List Char)
    (h : IsElements vs t) : (skipBlank (t ++ rest)).head? ≠ some ']' := by
  have hhead : ∀ {v : Value} {l t r : List Char}, Blank l → IsValue v t →
      (skipBlank (l ++ (t ++ r))).head? ≠ some ']' := by
    intro v l t r hl hv
    rw [skipBlank_value hl hv]
    obtain ⟨c, u, rfl, -, hc⟩ := begins_of_isValue hv
    simpa using hc
  cases h with
  | single hl hv hr =>
    rw [List.append_assoc, List.append_assoc]
    exact hhead hl hv
  | cons hl hv hr hvs =>
    rw [List.append_assoc, List.append_assoc, List.append_assoc]
    exact hhead hl hv

/-- The members of an object begin with a quote. -/
theorem members_head {ms : List (List Char × Value)} {t : List Char} (rest : List Char)
    (h : IsMembers ms t) : (skipBlank (t ++ rest)).head? = some '"' := by
  have hhead : ∀ {a : List Char × Value} {t : List Char} (rest : List Char), IsMember a t →
      (skipBlank (t ++ rest)).head? = some '"' := by
    intro a t rest ha
    cases ha with
    | @mk k v l m n t r hl hk hm hn hv hr =>
      simp only [List.append_assoc, List.cons_append]
      rw [skipBlank_mark hl (by rfl)]
      rfl
  cases h with
  | single ha => exact hhead rest ha
  | cons ha hms =>
    rw [List.append_assoc]
    exact hhead _ ha

theorem parseValue_array {fuel : Nat} {vs : List Value} {t rest : List Char}
    (h : IsElements vs t) (hparse : parseElements fuel (t ++ ']' :: rest) = some (vs, rest)) :
    parseValue (fuel + 1) ('[' :: t ++ [']'] ++ rest) = some (.array vs, rest) := by
  rw [List.cons_append, List.cons_append, List.append_assoc, List.singleton_append, parseValue,
    if_neg (by decide), if_pos rfl, if_neg (elements_head _ h), hparse]
  rfl

theorem parseValue_object {fuel : Nat} {ms : List (List Char × Value)} {t rest : List Char}
    (h : IsMembers ms t) (hparse : parseMembers fuel (t ++ '}' :: rest) = some (ms, rest)) :
    parseValue (fuel + 1) ('{' :: t ++ ['}'] ++ rest) = some (.object ms, rest) := by
  have hhead : (skipBlank (t ++ '}' :: rest)).head? ≠ some '}' := by
    rw [members_head _ h]
    decide
  rw [List.cons_append, List.cons_append, List.append_assoc, List.singleton_append, parseValue,
    if_neg (by decide), if_neg (by decide), if_pos rfl, if_neg hhead, hparse]
  rfl

/-- Behind an element there is whitespace, and then a comma or a bracket. -/
theorem follows_mark {r rest : List Char} (hr : Blank r) {c : Char} (hc : isNumeric c = false) :
    Follows (r ++ c :: rest) :=
  Follows.blank hr (.cons hc)

/-- The last element. -/
theorem parseElements_last {fuel : Nat} {v : Value} {l t r rest : List Char} (hl : Blank l)
    (hv : IsValue v t) (hr : Blank r)
    (hparse : parseValue fuel (t ++ (r ++ ']' :: rest)) = some (v, r ++ ']' :: rest)) :
    parseElements (fuel + 1) (l ++ t ++ r ++ ']' :: rest) = some ([v], rest) := by
  rw [List.append_assoc, List.append_assoc, parseElements, skipBlank_value hl hv, hparse,
    Option.bind_eq_bind, Option.bind_some]
  dsimp only
  rw [skipBlank_mark hr (by rfl)]
  rfl

/-- An element with others behind it. -/
theorem parseElements_more {fuel : Nat} {v : Value} {vs : List Value} {l t r u rest : List Char}
    (hl : Blank l) (hv : IsValue v t) (hr : Blank r)
    (hparse : parseValue fuel (t ++ (r ++ ',' :: (u ++ ']' :: rest))) =
      some (v, r ++ ',' :: (u ++ ']' :: rest)))
    (hrest : parseElements fuel (u ++ ']' :: rest) = some (vs, rest)) :
    parseElements (fuel + 1) (l ++ t ++ r ++ ',' :: u ++ ']' :: rest) = some (v :: vs, rest) := by
  simp only [List.append_assoc, List.cons_append]
  rw [parseElements, skipBlank_value hl hv, hparse, Option.bind_eq_bind, Option.bind_some]
  dsimp only
  rw [skipBlank_mark hr (by rfl)]
  change (parseElements fuel (u ++ ']' :: rest)).map _ = _
  rw [hrest]
  rfl

/-- One member, up to the mark behind it. -/
theorem parseMembers_step {fuel : Nat} {k : List Char} {v : Value} {l m n t r rest : List Char}
    {c : Char} (hl : Blank l) (hk : StringBody k) (hm : Blank m) (hn : Blank n)
    (hv : IsValue v t) (hr : Blank r) (hc : isBlank c = false)
    (hparse : parseValue fuel (t ++ (r ++ c :: rest)) = some (v, r ++ c :: rest)) :
    parseMembers (fuel + 1)
        (l ++ ('"' :: k ++ ['"']) ++ m ++ ':' :: n ++ t ++ r ++ c :: rest) =
      match c :: rest with
      | ',' :: t => (parseMembers fuel t).map fun (ms, t) => ((k, v) :: ms, t)
      | '}' :: t => some ([(k, v)], t)
      | _ => none := by
  simp only [List.append_assoc, List.cons_append, List.nil_append]
  rw [parseMembers, skipBlank_mark hl (by rfl), List.tail_cons, takeString_body _ hk,
    Option.bind_eq_bind, Option.bind_some]
  dsimp only
  rw [skipBlank_mark hm (by rfl), List.tail_cons, skipBlank_value hn hv, hparse]
  rw [Option.bind_eq_bind, Option.bind_some]
  dsimp only
  rw [skipBlank_mark hr hc]

mutual

/-- A text of a value is read to its end, whatever is behind it, with fuel for its length. -/
theorem parseValue_of_isValue {v : Value} {t rest : List Char} {fuel : Nat} :
    IsValue v t → t.length < fuel + 1 → Follows rest →
      parseValue (fuel + 1) (t ++ rest) = some (v, rest)
  | .null, _, _ => rfl
  | .true, _, _ => rfl
  | .false, _, _ => rfl
  | .number h, _, hrest => parseValue_number h hrest
  | .string h, _, _ => parseValue_string rest h
  | .emptyArray hw, _, _ => parseValue_emptyArray rest hw
  | .array h, hfuel, _ => by
    have hlength := hfuel
    simp only [List.length_append, List.length_cons, List.length_nil] at hlength
    exact parseValue_array h (parseElements_of_isElements h (by omega))
  | .emptyObject hw, _, _ => parseValue_emptyObject rest hw
  | .object h, hfuel, _ => by
    simp only [List.length_append, List.length_cons, List.length_nil] at hfuel
    exact parseValue_object h (parseMembers_of_isMembers h (by omega))

theorem parseElements_of_isElements {vs : List Value} {t rest : List Char} {fuel : Nat} :
    IsElements vs t → t.length + 1 < fuel →
      parseElements fuel (t ++ ']' :: rest) = some (vs, rest)
  | @IsElements.single v l t r hl hv hr, hfuel => by
    simp only [List.length_append] at hfuel
    obtain ⟨fuel, rfl⟩ : ∃ n, fuel = n + 2 := ⟨fuel - 2, by omega⟩
    exact parseElements_last hl hv hr
      (parseValue_of_isValue hv (by omega) (follows_mark hr (by rfl)))
  | @IsElements.cons v vs l t r u hl hv hr hvs, hfuel => by
    simp only [List.length_append, List.length_cons] at hfuel
    obtain ⟨fuel, rfl⟩ : ∃ n, fuel = n + 2 := ⟨fuel - 2, by omega⟩
    exact parseElements_more hl hv hr
      (parseValue_of_isValue hv (by omega) (follows_mark hr (by rfl)))
      (parseElements_of_isElements hvs (by omega))

theorem parseMembers_of_isMember {a : List Char × Value} {t rest : List Char} {c : Char}
    {fuel : Nat} (hblank : isBlank c = false) (hc : isNumeric c = false) :
    IsMember a t → t.length < fuel + 1 →
      parseMembers (fuel + 2) (t ++ c :: rest) =
        match c :: rest with
        | ',' :: t => (parseMembers (fuel + 1) t).map fun (ms, t) => (a :: ms, t)
        | '}' :: t => some ([a], t)
        | _ => none
  | @IsMember.mk k v l m n t r hl hk hm hn hv hr, hfuel => by
    simp only [List.length_append, List.length_cons] at hfuel
    exact parseMembers_step hl hk hm hn hv hr hblank
      (parseValue_of_isValue hv (by omega) (follows_mark hr hc))

theorem parseMembers_of_isMembers {ms : List (List Char × Value)} {t rest : List Char}
    {fuel : Nat} :
    IsMembers ms t → t.length + 1 < fuel →
      parseMembers fuel (t ++ '}' :: rest) = some (ms, rest)
  | .single ha, hfuel => by
    obtain ⟨fuel, rfl⟩ : ∃ n, fuel = n + 2 := ⟨fuel - 2, by omega⟩
    exact parseMembers_of_isMember (by rfl) (by rfl) ha (by omega)
  | @IsMembers.cons a ms t u ha hms, hfuel => by
    simp only [List.length_append, List.length_cons] at hfuel
    obtain ⟨fuel, rfl⟩ : ∃ n, fuel = n + 2 := ⟨fuel - 2, by omega⟩
    have hothers : parseMembers (fuel + 1) (u ++ '}' :: rest) = some (ms, rest) :=
      parseMembers_of_isMembers hms (by omega)
    rw [List.append_assoc, List.cons_append,
      parseMembers_of_isMember (c := ',') (by rfl) (by rfl) ha (by omega)]
    change (parseMembers (fuel + 1) (u ++ '}' :: rest)).map _ = _
    rw [hothers]
    rfl

end

/-- The value of a whole text. -/
theorem parse_of_isDocument {v : Value} {text : List Char} (h : IsDocument v text) :
    parse text = some v := by
  obtain ⟨l, t, r, hl, hv, hr, rfl⟩ := h
  have hrest : Follows r := by
    rw [← List.append_nil r]
    exact Follows.blank hr .nil
  have hvalue : parseValue ((l ++ t ++ r).length + 1) (t ++ r) = some (v, r) :=
    parseValue_of_isValue hv (by simp; omega) hrest
  rw [parse, List.append_assoc, skipBlank_value hl hv, ← List.append_assoc, hvalue]
  rfl

end JsonGrammar
