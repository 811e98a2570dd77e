import Mathlib.Data.List.Basic

/-!
# JSON texts

A parser for the whole JSON grammar. It keeps numbers and strings as they are written, between the
quotes in the case of a string, so nothing is lost and every text that the grammar derives is
accepted. The lemmas below say how the parser reads what a program has put together from parts.
-/

namespace Json

/-- A JSON value. -/
inductive Value where
  | null
  | bool (value : Bool)
  | number (lexeme : List Char)
  | string (raw : List Char)
  | array (items : List Value)
  | object (members : List (List Char × Value))

/-- The value of a member of an object. -/
def Value.member (key : List Char) : Value → Option Value
  | .object members => members.lookup key
  | _ => none

/-- A parser takes a front part of the text, or refuses it. -/
abbrev Parser (α : Type) := List Char → Option (α × List Char)

/-! ## The parser -/

def isSpace (c : Char) : Bool := c = ' ' || c = '\t' || c = '\n' || c = '\r'

/-- Insignificant whitespace. -/
def skipSpace (text : List Char) : List Char := text.dropWhile isSpace

def isHexDigit (c : Char) : Bool :=
  c.isDigit || ('a' ≤ c && c ≤ 'f') || ('A' ≤ c && c ≤ 'F')

/-- A character that stands for itself in a string. -/
def isPlain (c : Char) : Bool := c ≠ '"' && c ≠ '\\' && 0x20 ≤ c.toNat

/-- The rest of a string behind its opening quote, up to the closing quote. -/
def scanString : Parser (List Char)
  | [] => none
  | '"' :: rest => some ([], rest)
  | '\\' :: 'u' :: rest =>
    if 4 ≤ (rest.takeWhile isHexDigit).length then
      (scanString rest).map (fun (raw, rest) => ('\\' :: 'u' :: raw, rest))
    else none
  | '\\' :: c :: rest =>
    if c ∈ ['"', '\\', '/', 'b', 'f', 'n', 'r', 't'] then
      (scanString rest).map (fun (raw, rest) => ('\\' :: c :: raw, rest))
    else none
  | c :: rest =>
    if isPlain c then (scanString rest).map (fun (raw, rest) => (c :: raw, rest)) else none

/-- One digit or more. -/
def scanDigits : Parser (List Char) := fun text =>
  if text.takeWhile Char.isDigit = [] then none
  else some (text.takeWhile Char.isDigit, text.dropWhile Char.isDigit)

/-- The integer part of a number, without superfluous zeros in front. -/
def scanInt : Parser (List Char)
  | '0' :: rest => some (['0'], rest)
  | text => scanDigits text

/-- The fraction of a number, if there is one. -/
def scanFraction : Parser (List Char)
  | '.' :: rest => (scanDigits rest).map (fun (digits, rest) => ('.' :: digits, rest))
  | text => some ([], text)

/-- The exponent of a number, if there is one. -/
def scanExponent : Parser (List Char)
  | e :: rest =>
    if e = 'e' ∨ e = 'E' then
      match rest with
      | sign :: more =>
        if sign = '+' ∨ sign = '-' then
          (scanDigits more).map (fun (digits, rest) => (e :: sign :: digits, rest))
        else (scanDigits rest).map (fun (digits, rest) => (e :: digits, rest))
      | [] => none
    else some ([], e :: rest)
  | [] => some ([], [])

/-- A number without a sign. -/
def scanMagnitude : Parser (List Char) := fun text => do
  let (whole, text) ← scanInt text
  let (fraction, text) ← scanFraction text
  let (exponent, text) ← scanExponent text
  return (whole ++ fraction ++ exponent, text)

/-- A number. -/
def scanNumber : Parser (List Char)
  | '-' :: rest => (scanMagnitude rest).map (fun (lexeme, rest) => ('-' :: lexeme, rest))
  | text => scanMagnitude text

/-- The items of a nonempty list, separated by commas, up to the closing bracket. -/
def parseItems {α : Type} (item : Parser α) (close : Char) : ℕ → Parser (List α)
  | 0, _ => none
  | n + 1, text =>
    match item text with
    | none => none
    | some (a, text) =>
      match skipSpace text with
      | [] => none
      | c :: text =>
        if c = ',' then
          (parseItems item close n text).map (fun (items, text) => (a :: items, text))
        else if c = close then some ([a], text)
        else none

/-- A member of an object. -/
def parseMember (value : Parser Value) : Parser (List Char × Value) := fun text =>
  match skipSpace text with
  | '"' :: text =>
    match scanString text with
    | none => none
    | some (key, text) =>
      match skipSpace text with
      | ':' :: text => (value text).map (fun (v, text) => ((key, v), text))
      | _ => none
  | _ => none

/-- A value, with at most the given number of values inside one another. -/
def parseValue : ℕ → Parser Value
  | 0, _ => none
  | depth + 1, text =>
    match skipSpace text with
    | '{' :: text =>
      match skipSpace text with
      | '}' :: text => some (.object [], text)
      | _ =>
        (parseItems (parseMember (parseValue depth)) '}' text.length text).map
          (fun (members, text) => (.object members, text))
    | '[' :: text =>
      match skipSpace text with
      | ']' :: text => some (.array [], text)
      | _ =>
        (parseItems (parseValue depth) ']' text.length text).map
          (fun (items, text) => (.array items, text))
    | '"' :: text => (scanString text).map (fun (raw, text) => (.string raw, text))
    | 'n' :: 'u' :: 'l' :: 'l' :: text => some (.null, text)
    | 't' :: 'r' :: 'u' :: 'e' :: text => some (.bool true, text)
    | 'f' :: 'a' :: 'l' :: 's' :: 'e' :: text => some (.bool false, text)
    | text => (scanNumber text).map (fun (lexeme, text) => (.number lexeme, text))

/-- A whole text is one value, with whitespace around it. A text of some length holds no more values
inside one another than it has characters. -/
def parse (text : List Char) : Option Value :=
  match parseValue (text.length + 1) text with
  | some (value, rest) => if skipSpace rest = [] then some value else none
  | none => none

/-! ## Texts put together from parts -/

/-- What may follow a value: anything that does not go on with a number. -/
def Ends (rest : List Char) : Prop :=
  ∀ c ∈ rest.head?, c.isDigit = false ∧ c ≠ '.' ∧ c ≠ 'e' ∧ c ≠ 'E'

/-- The parser takes exactly `text`, wherever it ends. -/
def Reads {α : Type} (parser : Parser α) (text : List Char) (a : α) : Prop :=
  ∀ rest, Ends rest → parser (text ++ rest) = some (a, rest)

@[simp] theorem ends_nil : Ends [] := by simp [Ends]

@[simp] theorem ends_cons {c : Char} {rest : List Char} :
    Ends (c :: rest) ↔ c.isDigit = false ∧ c ≠ '.' ∧ c ≠ 'e' ∧ c ≠ 'E' := by
  simp [Ends]

/-- A value may be followed by whitespace, and by whatever may follow a value. -/
theorem Ends.append {space rest : List Char} (hspace : ∀ c ∈ space, isSpace c = true)
    (hrest : Ends rest) : Ends (space ++ rest) := by
  cases space with
  | nil => exact hrest
  | cons c space =>
    have hc : isSpace c = true := hspace c List.mem_cons_self
    simp only [isSpace, Bool.or_eq_true, decide_eq_true_eq] at hc
    rw [List.cons_append, ends_cons]
    rcases hc with ((rfl | rfl) | rfl) | rfl <;> decide

theorem skipSpace_append {space : List Char} (hspace : ∀ c ∈ space, isSpace c = true)
    (rest : List Char) : skipSpace (space ++ rest) = skipSpace rest :=
  List.dropWhile_append_of_pos hspace

@[simp] theorem skipSpace_cons {c : Char} (hc : isSpace c = false) (rest : List Char) :
    skipSpace (c :: rest) = c :: rest := by
  simp [skipSpace, hc]

theorem skipSpace_append_of_cons {text front : List Char} {c : Char}
    (h : skipSpace text = c :: front) (rest : List Char) :
    skipSpace (text ++ rest) = c :: (front ++ rest) := by
  unfold skipSpace at h ⊢
  rw [List.dropWhile_append, h]
  rfl

/-- A string without escapes. -/
theorem scanString_plain {raw : List Char} (hraw : ∀ c ∈ raw, isPlain c = true)
    (rest : List Char) : scanString (raw ++ '"' :: rest) = some (raw, rest) := by
  induction raw with
  | nil => simp [scanString]
  | cons c raw ih =>
    have hc : isPlain c = true := hraw c List.mem_cons_self
    have hquote : c ≠ '"' := by
      rintro rfl
      exact absurd hc (by decide)
    have hbackslash : c ≠ '\\' := by
      rintro rfl
      exact absurd hc (by decide)
    rw [List.cons_append, scanString, if_pos hc, ih (fun d hd => hraw d (List.mem_cons_of_mem c hd))]
    · rfl
    · exact hquote
    · intro _ h
      exact absurd h hbackslash
    · intro _ _ h
      exact absurd h hbackslash

/-! ### Numbers -/

theorem takeWhile_isDigit {digits rest : List Char} (hdigits : ∀ c ∈ digits, c.isDigit = true)
    (hrest : Ends rest) : (digits ++ rest).takeWhile Char.isDigit = digits ∧
      (digits ++ rest).dropWhile Char.isDigit = rest := by
  rw [List.takeWhile_append_of_pos hdigits, List.dropWhile_append_of_pos hdigits]
  cases rest with
  | nil => simp
  | cons c rest =>
    have hc := (ends_cons.mp hrest).1
    simp [hc]

/-- The digits of a number do not begin with a zero, unless it is the number zero. -/
theorem toDigits_cases (n : ℕ) :
    Nat.toDigits 10 n = ['0'] ∨ ∃ c digits, Nat.toDigits 10 n = c :: digits ∧ c ≠ '0' := by
  induction n using Nat.strongRecOn with
  | _ n ih =>
    by_cases hsmall : n < 10
    · rw [Nat.toDigits_of_lt_base hsmall]
      by_cases hzero : n = 0
      · left
        rw [hzero]
        rfl
      · right
        refine ⟨n.digitChar, [], rfl, ?_⟩
        intro h
        exact hzero ((Nat.digitChar_eq_zero).mp h)
    · right
      have hdiv : n / 10 < n := by omega
      rw [Nat.toDigits_of_base_le (by omega) (by omega)]
      rcases ih (n / 10) hdiv with hzero | ⟨c, digits, hdigits, hc⟩
      · have hback := congrArg (fun l => Nat.ofDigitChars 10 l 0) hzero
        simp only [Nat.ofDigitChars_ten_toDigits] at hback
        have : n / 10 = 0 := hback
        omega
      · rw [hdigits]
        exact ⟨c, _, rfl, hc⟩

/-- The decimal digits of a number are a number. -/
theorem scanMagnitude_toDigits (n : ℕ) {rest : List Char} (hrest : Ends rest) :
    scanMagnitude (Nat.toDigits 10 n ++ rest) = some (Nat.toDigits 10 n, rest) := by
  have hdigits : ∀ c ∈ Nat.toDigits 10 n, c.isDigit = true :=
    fun c hc => Nat.isDigit_of_mem_toDigits (by omega) (by omega) hc
  have hint : scanInt (Nat.toDigits 10 n ++ rest) = some (Nat.toDigits 10 n, rest) := by
    rcases toDigits_cases n with hzero | ⟨c, digits, hcons, hc⟩
    · rw [hzero]
      rfl
    · obtain ⟨htake, hdrop⟩ := takeWhile_isDigit hdigits hrest
      have hscan : scanDigits (Nat.toDigits 10 n ++ rest) = some (Nat.toDigits 10 n, rest) := by
        rw [scanDigits, htake, hdrop, if_neg Nat.toDigits_ne_nil]
      rw [hcons, List.cons_append] at hscan ⊢
      rw [scanInt, hscan]
      intro _ h
      exact hc (List.cons.inj h).1
  have hfraction : scanFraction rest = some ([], rest) := by
    cases rest with
    | nil => rfl
    | cons c rest =>
      have hc := (ends_cons.mp hrest).2.1
      rw [scanFraction]
      intro _ h
      exact hc (List.cons.inj h).1
  have hexponent : scanExponent rest = some ([], rest) := by
    cases rest with
    | nil => rfl
    | cons c rest =>
      obtain ⟨_, _, he, hE⟩ := ends_cons.mp hrest
      simp [scanExponent, he, hE]
  simp [scanMagnitude, hint, hfraction, hexponent]

/-! ### Values -/

theorem parseValue_toDigits (depth n : ℕ) :
    Reads (parseValue (depth + 1)) (Nat.toDigits 10 n) (.number (Nat.toDigits 10 n)) := by
  intro rest hrest
  obtain ⟨c, digits, hcons⟩ := List.exists_cons_of_ne_nil (Nat.toDigits_ne_nil (n := n) (b := 10))
  have hc : c.isDigit = true :=
    Nat.isDigit_of_mem_toDigits (b := 10) (n := n) (by omega) (by omega) (by simp [hcons])
  have hother (d : Char) (hd : d.isDigit = false) : c ≠ d := by
    rintro rfl
    exact absurd hc (by simp [hd])
  have hspace : isSpace c = false := by
    simp [isSpace, hother ' ' rfl, hother '\t' rfl, hother '\n' rfl, hother '\r' rfl]
  have hscan := scanMagnitude_toDigits n hrest
  rw [hcons, List.cons_append] at hscan ⊢
  have hnumber : scanNumber (c :: (digits ++ rest)) = some (c :: digits, rest) := by
    rw [scanNumber, hscan]
    intro _ h
    exact hother '-' rfl (List.cons.inj h).1
  have hskip := skipSpace_cons hspace (digits ++ rest)
  unfold parseValue
  rw [hskip]
  split
  · next h => exact absurd (List.cons.inj h).1 (hother '{' rfl)
  · next h => exact absurd (List.cons.inj h).1 (hother '[' rfl)
  · next h => exact absurd (List.cons.inj h).1 (hother '"' rfl)
  · next h => exact absurd (List.cons.inj h).1 (hother 'n' rfl)
  · next h => exact absurd (List.cons.inj h).1 (hother 't' rfl)
  · next h => exact absurd (List.cons.inj h).1 (hother 'f' rfl)
  · rw [hnumber]
    rfl

theorem parseValue_string (depth : ℕ) {raw : List Char} (hraw : ∀ c ∈ raw, isPlain c = true) :
    Reads (parseValue (depth + 1)) ('"' :: (raw ++ ['"'])) (.string raw) := by
  intro rest _
  have hscan := scanString_plain hraw rest
  have hskip : skipSpace ('"' :: (raw ++ '"' :: rest)) = '"' :: (raw ++ '"' :: rest) :=
    skipSpace_cons rfl _
  simp [parseValue, hskip, hscan]

/-- A member whose value the given parser reads. -/
theorem parseMember_reads {value : Parser Value} {key text : List Char} {v : Value}
    (hkey : ∀ c ∈ key, isPlain c = true) (hvalue : Reads value text v) :
    Reads (parseMember value) ('"' :: (key ++ '"' :: ':' :: text)) (key, v) := by
  intro rest hrest
  have hscan := scanString_plain hkey (':' :: (text ++ rest))
  have hquote (tail : List Char) : skipSpace ('"' :: tail) = '"' :: tail := skipSpace_cons rfl _
  have hcolon (tail : List Char) : skipSpace (':' :: tail) = ':' :: tail := skipSpace_cons rfl _
  simp [parseMember, hquote, hcolon, hscan, hvalue rest hrest]

/-! ### Lists -/

/-- A nonempty list of parts, separated by commas. -/
theorem parseItems_intercalate {α : Type} {item : Parser α} {close : Char}
    (hclose : close ≠ ',' ∧ isSpace close = false ∧ Ends [close]) {parts : List (List Char × α)}
    (hparts : parts ≠ []) (hitem : ∀ p ∈ parts, Reads item p.1 p.2) {space : List Char}
    (hspace : ∀ c ∈ space, isSpace c = true) {n : ℕ} (hn : parts.length ≤ n) (rest : List Char) :
    parseItems item close n ([','].intercalate (parts.map Prod.fst) ++ (space ++ close :: rest)) =
      some (parts.map Prod.snd, rest) := by
  have hends : Ends (close :: rest) := by simpa using hclose.2.2
  have hskip : skipSpace (space ++ close :: rest) = close :: rest := by
    rw [skipSpace_append hspace, skipSpace_cons hclose.2.1]
  induction parts generalizing n with
  | nil => exact absurd rfl hparts
  | cons part parts ih =>
    have hhead : Reads item part.1 part.2 := hitem part List.mem_cons_self
    obtain ⟨n, rfl⟩ : ∃ m, n = m + 1 := by
      rw [List.length_cons] at hn
      exact ⟨n - 1, by omega⟩
    cases parts with
    | nil =>
      simp [parseItems, hhead _ (hends.append hspace), hskip, hclose.1]
    | cons next parts =>
      have hcomma (tail : List Char) : Ends (',' :: tail) := ends_cons.mpr (by decide)
      have hskipComma (tail : List Char) : skipSpace (',' :: tail) = ',' :: tail :=
        skipSpace_cons rfl tail
      have htail := ih (by simp) (fun p hp => hitem p (List.mem_cons_of_mem part hp))
        (Nat.le_of_succ_le_succ hn)
      have hsplit : [','].intercalate ((part :: next :: parts).map Prod.fst) =
          part.1 ++ ',' :: [','].intercalate ((next :: parts).map Prod.fst) := by
        simp [List.intercalate]
      rw [hsplit, List.append_assoc, List.cons_append, parseItems, hhead _ (hcomma _)]
      simp only [hskipComma, if_true, htail]
      rfl

/-- The parts of a list are no longer, all together, than the list. -/
theorem length_parts_le {α : Type} (parts : List (List Char × α)) (space : List Char) (close : Char)
    (rest : List Char) : parts.length ≤
      ([','].intercalate (parts.map Prod.fst) ++ (space ++ close :: rest)).length := by
  have hcommas : parts.length ≤ ([','].intercalate (parts.map Prod.fst)).length + 1 := by
    induction parts with
    | nil => simp
    | cons part parts ih =>
      cases parts with
      | nil => simp
      | cons next parts =>
        simp only [List.map_cons, List.intercalate_cons_cons, List.length_cons, List.length_append,
          List.length_nil] at ih ⊢
        omega
  simp only [List.length_append, List.length_cons]
  omega

/-- What the text of a nonempty list begins with is what its first part begins with. -/
theorem skipSpace_intercalate {α : Type} {parts : List (List Char × α)} (hparts : parts ≠ [])
    {first : Char} (hfirst : ∀ p ∈ parts, ∃ tail, skipSpace p.1 = first :: tail)
    (rest : List Char) :
    ∃ tail, skipSpace ([','].intercalate (parts.map Prod.fst) ++ rest) = first :: tail := by
  obtain ⟨part, parts, rfl⟩ := List.exists_cons_of_ne_nil hparts
  obtain ⟨tail, htail⟩ := hfirst part List.mem_cons_self
  cases parts with
  | nil => exact ⟨_, by simpa using skipSpace_append_of_cons htail rest⟩
  | cons next parts =>
    rw [List.map_cons, List.map_cons, List.intercalate_cons_cons, List.append_assoc,
      List.append_assoc]
    exact ⟨_, skipSpace_append_of_cons htail _⟩

/-- A nonempty array. -/
theorem parseValue_array (depth : ℕ) {parts : List (List Char × Value)} (hparts : parts ≠ [])
    (hitem : ∀ p ∈ parts, Reads (parseValue depth) p.1 p.2) {first : Char} (hne : first ≠ ']')
    (hfirst : ∀ p ∈ parts, ∃ tail, skipSpace p.1 = first :: tail) {space : List Char}
    (hspace : ∀ c ∈ space, isSpace c = true) (rest : List Char) :
    parseValue (depth + 1)
        ('[' :: ([','].intercalate (parts.map Prod.fst) ++ (space ++ ']' :: rest))) =
      some (.array (parts.map Prod.snd), rest) := by
  have hclose : ']' ≠ ',' ∧ isSpace ']' = false ∧ Ends [']'] :=
    ⟨by decide, rfl, ends_cons.mpr (by decide)⟩
  have hitems := parseItems_intercalate hclose hparts hitem hspace
    (length_parts_le parts space ']' rest) rest
  obtain ⟨tail, htail⟩ := skipSpace_intercalate hparts hfirst (space ++ ']' :: rest)
  have hopen (text : List Char) : skipSpace ('[' :: text) = '[' :: text := skipSpace_cons rfl text
  unfold parseValue
  simp only [hopen, htail]
  split
  · next h => exact absurd (List.cons.inj h).1 hne
  · rw [hitems]
    rfl

/-- A nonempty object. -/
theorem parseValue_object (depth : ℕ) {parts : List (List Char × (List Char × Value))}
    (hparts : parts ≠ []) (hitem : ∀ p ∈ parts, Reads (parseMember (parseValue depth)) p.1 p.2)
    {first : Char} (hne : first ≠ '}')
    (hfirst : ∀ p ∈ parts, ∃ tail, skipSpace p.1 = first :: tail) {space : List Char}
    (hspace : ∀ c ∈ space, isSpace c = true) (rest : List Char) :
    parseValue (depth + 1)
        ('{' :: ([','].intercalate (parts.map Prod.fst) ++ (space ++ '}' :: rest))) =
      some (.object (parts.map Prod.snd), rest) := by
  have hclose : '}' ≠ ',' ∧ isSpace '}' = false ∧ Ends ['}'] :=
    ⟨by decide, rfl, ends_cons.mpr (by decide)⟩
  have hitems := parseItems_intercalate hclose hparts hitem hspace
    (length_parts_le parts space '}' rest) rest
  obtain ⟨tail, htail⟩ := skipSpace_intercalate hparts hfirst (space ++ '}' :: rest)
  have hopen (text : List Char) : skipSpace ('{' :: text) = '{' :: text := skipSpace_cons rfl text
  unfold parseValue
  simp only [hopen, htail]
  split
  · next h => exact absurd (List.cons.inj h).1 hne
  · rw [hitems]
    rfl

/-- Whitespace in front of a value. -/
theorem parseValue_space (depth : ℕ) {space : List Char} (hspace : ∀ c ∈ space, isSpace c = true)
    (text : List Char) : parseValue depth (space ++ text) = parseValue depth text := by
  cases depth with
  | zero => rfl
  | succ depth =>
    unfold parseValue
    rw [skipSpace_append hspace]

end Json
