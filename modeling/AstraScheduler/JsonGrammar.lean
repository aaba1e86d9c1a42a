import Mathlib.Data.Int.Order.Basic
import Mathlib.Data.List.Basic
import Mathlib.Tactic.SplitIfs

/-! # The JSON grammar and the balance of its brackets

The grammar of JSON texts as a relation between a value and the characters it is written
with.  Strings and numbers stay as they are written, so a value is a parse tree of its text.

A text is scanned from the left with one number, the square brackets opened and not yet
closed; brackets inside strings do not count, so the scan also follows where a string
begins and ends.  Every JSON text leaves the scan where it found it (`IsValue.balanced`,
`IsDocument.balanced`); a text that does not is no JSON. -/

namespace JsonGrammar

/-- A JSON value.  A number and a string are the characters of the text. -/
inductive Value
  | null
  | bool (b : Bool)
  | number (digits : List Char)
  | string (chars : List Char)
  | array (elements : List Value)
  | object (members : List (List Char × Value))

/-- Whitespace between tokens. -/
def Blank (w : List Char) : Prop := ∀ c ∈ w, c = ' ' ∨ c = '\n' ∨ c = '\r' ∨ c = '\t'

def Digits (ds : List Char) : Prop := ∀ c ∈ ds, c.isDigit = true

/-- The integer part of a number: no leading zero. -/
inductive IntPart : List Char → Prop
  | zero : IntPart ['0']
  | digits {d : Char} {ds : List Char} (hd : d.isDigit = true) (h0 : d ≠ '0')
      (hds : Digits ds) : IntPart (d :: ds)

/-- The fraction of a number, with its point. -/
inductive Fraction : List Char → Prop
  | none : Fraction []
  | digits {ds : List Char} (hne : ds ≠ []) (hds : Digits ds) : Fraction ('.' :: ds)

/-- The exponent of a number, with its letter and sign. -/
inductive Exponent : List Char → Prop
  | none : Exponent []
  | digits {e : Char} {sign ds : List Char} (he : e = 'e' ∨ e = 'E')
      (hsign : sign = [] ∨ sign = ['+'] ∨ sign = ['-']) (hne : ds ≠ []) (hds : Digits ds) :
      Exponent (e :: sign ++ ds)

inductive IsNumber : List Char → Prop
  | mk {sign whole frac exp : List Char} (hsign : sign = [] ∨ sign = ['-'])
      (hwhole : IntPart whole) (hfrac : Fraction frac) (hexp : Exponent exp) :
      IsNumber (sign ++ whole ++ frac ++ exp)

def HexDigit (c : Char) : Prop :=
  c.isDigit = true ∨ ('a' ≤ c ∧ c ≤ 'f') ∨ ('A' ≤ c ∧ c ≤ 'F')

instance (c : Char) : Decidable (HexDigit c) :=
  inferInstanceAs (Decidable (_ ∨ _ ∨ _))

/-- What stands between the quotes of a string. -/
inductive StringBody : List Char → Prop
  | nil : StringBody []
  | plain {c : Char} {t : List Char} (hquote : c ≠ '"') (hback : c ≠ '\\')
      (hcontrol : 32 ≤ c.toNat) (ht : StringBody t) : StringBody (c :: t)
  | escape {c : Char} {t : List Char} (hc : c ∈ ['"', '\\', '/', 'b', 'f', 'n', 'r', 't'])
      (ht : StringBody t) : StringBody ('\\' :: c :: t)
  | unicode {a b c d : Char} {t : List Char} (ha : HexDigit a) (hb : HexDigit b)
      (hc : HexDigit c) (hd : HexDigit d) (ht : StringBody t) :
      StringBody ('\\' :: 'u' :: a :: b :: c :: d :: t)

mutual

/-- The characters `t` are a text of the value `v`, without whitespace around it. -/
inductive IsValue : Value → List Char → Prop
  | null : IsValue .null "null".toList
  | true : IsValue (.bool true) "true".toList
  | false : IsValue (.bool false) "false".toList
  | number {t : List Char} (h : IsNumber t) : IsValue (.number t) t
  | string {s : List Char} (h : StringBody s) : IsValue (.string s) ('"' :: s ++ ['"'])
  | emptyArray {w : List Char} (hw : Blank w) : IsValue (.array []) ('[' :: w ++ [']'])
  | array {vs : List Value} {t : List Char} (h : IsElements vs t) :
      IsValue (.array vs) ('[' :: t ++ [']'])
  | emptyObject {w : List Char} (hw : Blank w) : IsValue (.object []) ('{' :: w ++ ['}'])
  | object {ms : List (List Char × Value)} {t : List Char} (h : IsMembers ms t) :
      IsValue (.object ms) ('{' :: t ++ ['}'])

/-- The elements of an array, separated by commas. -/
inductive IsElements : List Value → List Char → Prop
  | single {v : Value} {l t r : List Char} (hl : Blank l) (hv : IsValue v t) (hr : Blank r) :
      IsElements [v] (l ++ t ++ r)
  | cons {v : Value} {vs : List Value} {l t r u : List Char} (hl : Blank l)
      (hv : IsValue v t) (hr : Blank r) (hvs : IsElements vs u) :
      IsElements (v :: vs) (l ++ t ++ r ++ ',' :: u)

/-- One member of an object, with the whitespace around its tokens. -/
inductive IsMember : List Char × Value → List Char → Prop
  | mk {k : List Char} {v : Value} {l m n t r : List Char} (hl : Blank l)
      (hk : StringBody k) (hm : Blank m) (hn : Blank n) (hv : IsValue v t) (hr : Blank r) :
      IsMember (k, v) (l ++ ('"' :: k ++ ['"']) ++ m ++ ':' :: n ++ t ++ r)

/-- The members of an object, separated by commas. -/
inductive IsMembers : List (List Char × Value) → List Char → Prop
  | single {a : List Char × Value} {t : List Char} (h : IsMember a t) : IsMembers [a] t
  | cons {a : List Char × Value} {ms : List (List Char × Value)} {t u : List Char}
      (h : IsMember a t) (hms : IsMembers ms u) : IsMembers (a :: ms) (t ++ ',' :: u)

end

/-- A whole JSON text of the value `v`. -/
def IsDocument (v : Value) (text : List Char) : Prop :=
  ∃ l t r, Blank l ∧ IsValue v t ∧ Blank r ∧ text = l ++ t ++ r

/-! ## Texts without whitespace -/

theorem Blank.nil : Blank [] := by
  intro c hc
  cases hc

theorem IsMember.plain {k : List Char} {v : Value} {t : List Char} (hk : StringBody k)
    (hv : IsValue v t) : IsMember (k, v) ('"' :: k ++ ['"'] ++ ':' :: t) := by
  have h := IsMember.mk Blank.nil hk Blank.nil Blank.nil hv Blank.nil
  rwa [List.nil_append, List.append_nil, List.append_nil, List.append_assoc,
    List.singleton_append] at h

theorem IsMembers.append {ms ms' : List (List Char × Value)} {t u : List Char} :
    IsMembers ms t → IsMembers ms' u → IsMembers (ms ++ ms') (t ++ ',' :: u)
  | .single ha, hu => .cons ha hu
  | .cons ha hms, hu => by
    rw [List.append_assoc]
    exact .cons ha (hms.append hu)

/-- A character that a string may hold without escape. -/
def isPlain (c : Char) : Bool := c ≠ '"' && c ≠ '\\' && 32 ≤ c.toNat

theorem isPlain_iff {c : Char} : isPlain c = true ↔ (c ≠ '"' ∧ c ≠ '\\') ∧ 32 ≤ c.toNat := by
  simp [isPlain]

theorem StringBody.of_plain {s : List Char} (h : s.all isPlain = true) : StringBody s := by
  induction s with
  | nil => exact .nil
  | cons c s ih =>
    obtain ⟨hc, hs⟩ := Bool.and_eq_true_iff.mp h
    have hplain := isPlain_iff.mp hc
    exact .plain hplain.1.1 hplain.1.2 hplain.2 (ih hs)

/-! ## Scanning for square brackets -/

/-- Where the scan is: outside of strings, in one, or behind a backslash in one. -/
inductive Mode
  | outside
  | inside
  | escaped
  deriving DecidableEq, Repr

structure Scan where
  mode : Mode
  /-- Square brackets opened and not closed. -/
  depth : Int
  deriving DecidableEq, Repr

def Scan.step (s : Scan) (c : Char) : Scan :=
  match s.mode with
  | .outside =>
    if c = '"' then { s with mode := .inside }
    else if c = '[' then { s with depth := s.depth + 1 }
    else if c = ']' then { s with depth := s.depth - 1 }
    else s
  | .inside =>
    if c = '"' then { s with mode := .outside }
    else if c = '\\' then { s with mode := .escaped }
    else s
  | .escaped => { s with mode := .inside }

def scan (s : Scan) (text : List Char) : Scan := text.foldl Scan.step s

@[simp] theorem scan_nil (s : Scan) : scan s [] = s := rfl

@[simp] theorem scan_cons (s : Scan) (c : Char) (t : List Char) :
    scan s (c :: t) = scan (s.step c) t := rfl

theorem scan_append (s : Scan) (t u : List Char) : scan s (t ++ u) = scan (scan s t) u :=
  List.foldl_append ..

/-- The text takes the scan from mode `m` to mode `m'` and opens `k` brackets more than
it closes, whatever stood open before. -/
def Moves (m : Mode) (text : List Char) (m' : Mode) (k : Int) : Prop :=
  ∀ d, scan ⟨m, d⟩ text = ⟨m', d + k⟩

/-- The text begins and ends outside of strings, its brackets balanced. -/
abbrev Balanced (text : List Char) : Prop := Moves .outside text .outside 0

theorem Moves.append {m m' m'' : Mode} {t u : List Char} {k k' : Int} (ht : Moves m t m' k)
    (hu : Moves m' u m'' k') : Moves m (t ++ u) m'' (k + k') := by
  intro d
  rw [scan_append, ht, hu, Int.add_assoc]

theorem Moves.nil (m : Mode) : Moves m [] m 0 := by
  intro d
  simp

theorem Moves.cons {c : Char} {m m' m'' : Mode} {t : List Char} {k k' : Int}
    (hc : Moves m [c] m' k) (ht : Moves m' t m'' k') : Moves m (c :: t) m'' (k + k') :=
  Moves.append hc ht

theorem Balanced.append {t u : List Char} (ht : Balanced t) (hu : Balanced u) :
    Balanced (t ++ u) :=
  Moves.append ht hu

/-- The count of open brackets never influences a step. -/
theorem Scan.step_shift (s : Scan) (c : Char) (d : Int) :
    Scan.step { s with depth := d + s.depth } c =
      { s.step c with depth := d + (s.step c).depth } := by
  rcases s with ⟨m, k⟩
  cases m with
  | outside => unfold Scan.step; dsimp only; split_ifs <;> simp [Int.add_assoc, Int.add_sub_assoc]
  | inside => unfold Scan.step; dsimp only; split_ifs <;> rfl
  | escaped => rfl

theorem scan_shift (t : List Char) (s : Scan) (d : Int) :
    scan { s with depth := d + s.depth } t =
      { scan s t with depth := d + (scan s t).depth } := by
  induction t generalizing s with
  | nil => rfl
  | cons c t ih => rw [scan_cons, scan_cons, Scan.step_shift, ih]

/-- A fixed text is scanned once, with no bracket open. -/
theorem Moves.of_scan {m m' : Mode} {t : List Char} {k : Int} (h : scan ⟨m, 0⟩ t = ⟨m', k⟩) :
    Moves m t m' k := by
  intro d
  have hshift := scan_shift t ⟨m, 0⟩ d
  rw [h] at hshift
  simpa using hshift

/-- The same of a literal, given by its characters. -/
theorem Moves.of_chars {m m' : Mode} {t : List Char} {k : Int} (h : scan ⟨m, 0⟩ t = ⟨m', k⟩) :
    Moves m (String.ofList t).toList m' k := by
  rw [String.toList_ofList]
  exact .of_scan h

/-- A character that the scan passes over outside of strings. -/
def Neutral (c : Char) : Prop := c ≠ '"' ∧ c ≠ '[' ∧ c ≠ ']'

instance (c : Char) : Decidable (Neutral c) :=
  inferInstanceAs (Decidable (_ ∧ _ ∧ _))

theorem Balanced.of_neutral {t : List Char} (h : ∀ c ∈ t, Neutral c) : Balanced t := by
  intro d
  induction t with
  | nil => simp
  | cons c t ih =>
    obtain ⟨hquote, hopen, hclose⟩ := h c (List.mem_cons_self ..)
    have hstep : Scan.step ⟨.outside, d⟩ c = ⟨.outside, d⟩ := by
      simp [Scan.step, hquote, hopen, hclose]
    rw [scan_cons, hstep]
    exact ih fun c hc => h c (List.mem_cons_of_mem _ hc)

theorem neutral_of_isDigit {c : Char} (h : c.isDigit = true) : Neutral c := by
  refine ⟨?_, ?_, ?_⟩ <;> rintro rfl <;> exact absurd h (by decide)

theorem Digits.neutral {ds : List Char} (h : Digits ds) : ∀ c ∈ ds, Neutral c :=
  fun c hc => neutral_of_isDigit (h c hc)

theorem Blank.balanced {w : List Char} (h : Blank w) : Balanced w := by
  apply Balanced.of_neutral
  intro c hc
  rcases h c hc with rfl | rfl | rfl | rfl <;> decide

theorem IntPart.balanced {t : List Char} (h : IntPart t) : Balanced t := by
  apply Balanced.of_neutral
  induction h with
  | zero => simp [Neutral]
  | digits hd h0 hds =>
    intro c hc
    rcases List.mem_cons.mp hc with rfl | hc
    · exact neutral_of_isDigit hd
    · exact hds.neutral c hc

theorem Fraction.balanced {t : List Char} (h : Fraction t) : Balanced t := by
  induction h with
  | none => exact Moves.nil _
  | digits hne hds =>
    apply Balanced.of_neutral
    intro c hc
    rcases List.mem_cons.mp hc with rfl | hc
    · decide
    · exact hds.neutral c hc

theorem Exponent.balanced {t : List Char} (h : Exponent t) : Balanced t := by
  induction h with
  | none => exact Moves.nil _
  | @digits e sign ds he hsign hne hds =>
    have hletter : Balanced [e] := by
      rcases he with rfl | rfl <;> exact Moves.of_scan (by decide)
    have hsigned : Balanced sign := by
      rcases hsign with rfl | rfl | rfl <;> exact Moves.of_scan (by decide)
    exact Moves.cons hletter (hsigned.append (Balanced.of_neutral hds.neutral))

theorem IsNumber.balanced {t : List Char} (h : IsNumber t) : Balanced t := by
  obtain @⟨sign, whole, frac, exp, hsign, hwhole, hfrac, hexp⟩ := h
  have hsigned : Balanced sign := by
    rcases hsign with rfl | rfl
    · exact Moves.nil _
    · exact Moves.of_scan (by decide)
  exact ((hsigned.append hwhole.balanced).append hfrac.balanced).append hexp.balanced

/-- A character that leaves the scan inside of a string. -/
theorem moves_plain {c : Char} (hquote : c ≠ '"') (hback : c ≠ '\\') :
    Moves .inside [c] .inside 0 := by
  intro d
  simp [Scan.step, hquote, hback]

theorem HexDigit.moves {c : Char} (h : HexDigit c) : Moves .inside [c] .inside 0 := by
  apply moves_plain <;> rintro rfl <;> exact absurd h (by decide)

theorem moves_escaped (c : Char) : Moves .inside ['\\', c] .inside 0 := by
  intro d
  simp [Scan.step]

theorem StringBody.moves {s : List Char} (h : StringBody s) : Moves .inside s .inside 0 := by
  induction h with
  | nil => exact Moves.nil _
  | plain hquote hback hcontrol ht ih => exact Moves.cons (moves_plain hquote hback) ih
  | escape hc ht ih => exact Moves.append (moves_escaped _) ih
  | unicode ha hb hc hd ht ih =>
    exact Moves.append (moves_escaped _)
      (Moves.cons ha.moves (Moves.cons hb.moves (Moves.cons hc.moves (Moves.cons hd.moves ih))))

/-- A string with its quotes. -/
theorem StringBody.balanced {s : List Char} (h : StringBody s) : Balanced ('"' :: s ++ ['"']) :=
  Moves.append (Moves.cons (Moves.of_scan (k := 0) rfl) h.moves)
    (Moves.of_scan (k := 0) rfl)

/-- A balanced text stays balanced between square brackets. -/
theorem Balanced.bracket {t : List Char} (h : Balanced t) : Balanced ('[' :: t ++ [']']) :=
  Moves.append (Moves.cons (Moves.of_scan (k := 1) rfl) h) (Moves.of_scan (k := -1) rfl)

theorem Balanced.brace {t : List Char} (h : Balanced t) : Balanced ('{' :: t ++ ['}']) :=
  Moves.append (Moves.cons (Moves.of_scan (k := 0) rfl) h) (Moves.of_scan (k := 0) rfl)

theorem Balanced.comma {t : List Char} (h : Balanced t) : Balanced (',' :: t) :=
  Moves.cons (Moves.of_scan (k := 0) rfl) h

theorem Balanced.colon {t : List Char} (h : Balanced t) : Balanced (':' :: t) :=
  Moves.cons (Moves.of_scan (k := 0) rfl) h

mutual

theorem IsValue.balanced {v : Value} {t : List Char} : IsValue v t → Balanced t
  | .null => Moves.of_scan (by decide)
  | .true => Moves.of_scan (by decide)
  | .false => Moves.of_scan (by decide)
  | .number h => h.balanced
  | .string h => h.balanced
  | .emptyArray hw => hw.balanced.bracket
  | .array h => h.balanced.bracket
  | .emptyObject hw => hw.balanced.brace
  | .object h => h.balanced.brace

theorem IsElements.balanced {vs : List Value} {t : List Char} : IsElements vs t → Balanced t
  | .single hl hv hr => (hl.balanced.append hv.balanced).append hr.balanced
  | .cons hl hv hr hvs =>
    ((hl.balanced.append hv.balanced).append hr.balanced).append hvs.balanced.comma

theorem IsMember.balanced {a : List Char × Value} {t : List Char} : IsMember a t → Balanced t
  | .mk hl hk hm hn hv hr => by
    have hname := (hl.balanced.append hk.balanced).append hm.balanced
    exact ((hname.append hn.balanced.colon).append hv.balanced).append hr.balanced

theorem IsMembers.balanced {ms : List (List Char × Value)} {t : List Char} :
    IsMembers ms t → Balanced t
  | .single h => h.balanced
  | .cons h hms => h.balanced.append hms.balanced.comma

end

/-- The brackets of a JSON text are balanced. -/
theorem IsDocument.balanced {v : Value} {text : List Char} (h : IsDocument v text) :
    Balanced text := by
  obtain ⟨l, t, r, hl, hv, hr, rfl⟩ := h
  exact (hl.balanced.append hv.balanced).append hr.balanced

/-- A text that leaves a bracket open is no JSON. -/
theorem not_isDocument_of_moves {text : List Char} {m : Mode} {k : Int} (hk : k ≠ 0)
    (h : Moves .outside text m k) (v : Value) : ¬ IsDocument v text := by
  intro hdoc
  have hscan := (h 0).symm.trans (hdoc.balanced 0)
  simp only [Scan.mk.injEq] at hscan
  omega

end JsonGrammar
