import Hpblr.Lib.Json

/-!
# JSON texts with strings as they are

The escape sequences of a string, decoded. A program that puts text between two quotes as it is
writes a string that stands for this text exactly if the text has nothing to escape. This holds for an
object whose last member is such a string, too.
-/

namespace Json

/-! ## Escape sequences -/

/-- The value of a hexadecimal digit. -/
def hexDigitValue (c : Char) : ℕ :=
  if c.isDigit then c.toNat - '0'.toNat
  else if 'a' ≤ c then c.toNat - 'a'.toNat + 10
  else c.toNat - 'A'.toNat + 10

/-- The number that four hexadecimal digits stand for. -/
def codeUnit (a b c d : Char) : ℕ :=
  4096 * hexDigitValue a + 256 * hexDigitValue b + 16 * hexDigitValue c + hexDigitValue d

/-- What a backslash and one character stand for. -/
def escaped (c : Char) : Option Char :=
  ['"', '\\', '/', 'b', 'f', 'n', 'r', 't'].zip
    ['"', '\\', '/', Char.ofNat 8, Char.ofNat 12, '\n', '\r', '\t'] |>.lookup c

/-- The first half of a character outside the basic plane. -/
def IsHigh (unit : ℕ) : Prop := 0xD800 ≤ unit ∧ unit < 0xDC00

instance (unit : ℕ) : Decidable (IsHigh unit) := inferInstanceAs (Decidable (_ ∧ _))

/-- The second half of a character outside the basic plane. -/
def IsLow (unit : ℕ) : Prop := 0xDC00 ≤ unit ∧ unit < 0xE000

instance (unit : ℕ) : Decidable (IsLow unit) := inferInstanceAs (Decidable (_ ∧ _))

/-- The text that a string stands for. Half of a character stands for nothing. -/
def unescape : List Char → Option (List Char)
  | [] => some []
  | c :: raw =>
    if c ≠ '\\' then (unescape raw).map (fun text => c :: text)
    else
      match raw with
      | [] => none
      | e :: raw =>
        if e ≠ 'u' then (escaped e).bind (fun c => (unescape raw).map (fun text => c :: text))
        else
          match raw with
          | c₁ :: c₂ :: c₃ :: c₄ :: raw =>
            let unit := codeUnit c₁ c₂ c₃ c₄
            if IsLow unit then none
            else if IsHigh unit then
              match raw with
              | e₁ :: e₂ :: d₁ :: d₂ :: d₃ :: d₄ :: raw =>
                let low := codeUnit d₁ d₂ d₃ d₄
                if e₁ = '\\' ∧ e₂ = 'u' ∧ IsLow low then
                  (unescape raw).map (fun text =>
                    Char.ofNat (0x10000 + 1024 * (unit - 0xD800) + (low - 0xDC00)) :: text)
                else none
              | _ => none
            else (unescape raw).map (fun text => Char.ofNat unit :: text)
          | _ => none

example : unescape "a\\n\\u00e9\\ud83d\\ude00".toList = some "a\né😀".toList := by decide +kernel

/-- An escape sequence is longer than what it stands for. -/
theorem length_unescape {raw text : List Char} (h : unescape raw = some text) :
    text.length ≤ raw.length ∧ (raw.length ≤ text.length → '\\' ∉ raw) := by
  fun_induction unescape raw generalizing text with
  | case1 =>
    cases h
    simp
  | case2 c raw hc ih =>
    obtain ⟨tail, htail, rfl⟩ := Option.map_eq_some_iff.mp h
    have hraw := ih htail
    refine ⟨by simpa using hraw.1, fun hle => ?_⟩
    have hnot := hraw.2 (by simpa using hle)
    simp [Ne.symm hc, hnot]
  | case4 c hc e raw he ih =>
    obtain ⟨c', _, hmap⟩ := Option.bind_eq_some_iff.mp h
    obtain ⟨tail, htail, rfl⟩ := Option.map_eq_some_iff.mp hmap
    have hraw := ih htail
    simp only [List.length_cons]
    exact ⟨by omega, fun hle => by omega⟩
  | case6 =>
    rename_i raw low hsecond ih
    obtain ⟨tail, htail, rfl⟩ := Option.map_eq_some_iff.mp h
    have hraw := ih htail
    simp only [List.length_cons]
    exact ⟨by omega, fun hle => by omega⟩
  | case9 =>
    rename_i raw unit hlow hhigh ih
    obtain ⟨tail, htail, rfl⟩ := Option.map_eq_some_iff.mp h
    have hraw := ih htail
    simp only [List.length_cons]
    exact ⟨by omega, fun hle => by omega⟩
  | _ => cases h

/-- A text without anything to escape stands for itself. -/
theorem unescape_plain {raw : List Char} (h : ∀ c ∈ raw, isPlain c = true) :
    unescape raw = some raw := by
  induction raw with
  | nil => rfl
  | cons c raw ih =>
    have hc : c ≠ '\\' := by
      rintro rfl
      exact absurd (h '\\' List.mem_cons_self) (by decide)
    rw [unescape.eq_def]
    simp only [if_pos hc, ih (fun c hc => h c (List.mem_cons_of_mem _ hc)), Option.map_some]

/-! ## Between two quotes -/

/-- A string ends at a quote and has no control characters, and all its other quotes are behind
backslashes. -/
theorem scanString_sound {text raw rest : List Char} (h : scanString text = some (raw, rest)) :
    text = raw ++ '"' :: rest ∧ (∀ c ∈ raw, 0x20 ≤ c.toNat) ∧
      ('\\' ∉ raw → ∀ c ∈ raw, isPlain c = true) := by
  fun_induction scanString text generalizing raw with
  | case2 rest =>
    cases h
    simp
  | case3 text hdigits ih =>
    obtain ⟨⟨raw, rest⟩, hscan, heq⟩ := Option.map_eq_some_iff.mp h
    cases heq
    obtain ⟨htext, hcontrol, _⟩ := ih hscan
    refine ⟨by rw [htext]; rfl, ?_, by simp⟩
    simp only [List.forall_mem_cons]
    exact ⟨by decide, by decide, hcontrol⟩
  | case5 c text hu hc ih =>
    obtain ⟨⟨raw, rest⟩, hscan, heq⟩ := Option.map_eq_some_iff.mp h
    cases heq
    obtain ⟨htext, hcontrol, _⟩ := ih hscan
    have hshort : ['"', '\\', '/', 'b', 'f', 'n', 'r', 't'].all
        (fun c => decide (0x20 ≤ c.toNat)) = true := by decide
    refine ⟨by rw [htext]; rfl, ?_, by simp⟩
    simp only [List.forall_mem_cons]
    exact ⟨by decide, of_decide_eq_true (List.all_eq_true.mp hshort c hc), hcontrol⟩
  | case7 c text _ _ _ hc ih =>
    obtain ⟨⟨raw, rest⟩, hscan, heq⟩ := Option.map_eq_some_iff.mp h
    cases heq
    obtain ⟨htext, hcontrol, hplain⟩ := ih hscan
    have hlarge : 0x20 ≤ c.toNat := by
      simp only [isPlain, Bool.and_eq_true, decide_eq_true_eq] at hc
      exact hc.2
    refine ⟨by rw [htext]; rfl, ?_, fun hnot => ?_⟩
    · simp only [List.forall_mem_cons]
      exact ⟨hlarge, hcontrol⟩
    · simp only [List.forall_mem_cons]
      exact ⟨hc, hplain (fun hmem => hnot (List.mem_cons_of_mem c hmem))⟩
  | _ => cases h

/-- Between two quotes, with a line behind the second one, stands a string for the text itself exactly
if there is nothing to escape in the text. -/
theorem unescape_scanString_iff (text : List Char) {tail : List Char} :
    (∃ raw rest, scanString (text ++ '"' :: '\n' :: tail) = some (raw, rest) ∧
      unescape raw = some text) ↔ ∀ c ∈ text, isPlain c = true := by
  constructor
  · rintro ⟨raw, rest, hscan, hunescape⟩
    obtain ⟨htext, hcontrol, hplain⟩ := scanString_sound hscan
    obtain ⟨hle, hshort⟩ := length_unescape hunescape
    have hge : raw.length ≤ text.length := by
      by_contra hlonger
      rcases List.append_eq_append_iff.mp htext with ⟨more, hraw, hmore⟩ | ⟨more, hmore, _⟩
      · cases more with
        | nil => simp [hraw] at hlonger
        | cons c more =>
          cases more with
          | nil => simp at hmore
          | cons d more =>
            obtain ⟨_, rfl, _⟩ : _ ∧ '\n' = d ∧ _ := by simpa using hmore
            exact absurd (hcontrol '\n' (by simp [hraw])) (by decide)
      · rw [hmore, List.length_append] at hlonger
        omega
    obtain ⟨rfl, _⟩ := List.append_inj htext (by omega)
    exact hplain (hshort hge)
  · intro hplain
    exact ⟨text, '\n' :: tail, scanString_plain hplain _, unescape_plain hplain⟩

/-! ## Numbers with a fraction -/

/-- The decimal digits of a number, a point and more digits are a number. -/
theorem scanMagnitude_fraction (n : ℕ) {digits : List Char} (hne : digits ≠ [])
    (hdigits : ∀ c ∈ digits, c.isDigit = true) {rest : List Char} (hrest : Ends rest) :
    scanMagnitude (Nat.toDigits 10 n ++ '.' :: (digits ++ rest)) =
      some (Nat.toDigits 10 n ++ '.' :: digits, rest) := by
  have hwhole : ∀ c ∈ Nat.toDigits 10 n, c.isDigit = true :=
    fun c hc => Nat.isDigit_of_mem_toDigits (by omega) (by omega) hc
  have hint : scanInt (Nat.toDigits 10 n ++ '.' :: (digits ++ rest)) =
      some (Nat.toDigits 10 n, '.' :: (digits ++ rest)) := by
    rcases toDigits_cases n with hzero | ⟨c, more, hcons, hc⟩
    · rw [hzero]
      rfl
    · have hscan : scanDigits (Nat.toDigits 10 n ++ '.' :: (digits ++ rest)) =
          some (Nat.toDigits 10 n, '.' :: (digits ++ rest)) := by
        rw [scanDigits, List.takeWhile_append_of_pos hwhole, List.dropWhile_append_of_pos hwhole]
        simp
      rw [hcons, List.cons_append] at hscan ⊢
      rw [scanInt, hscan]
      intro _ h
      exact hc (List.cons.inj h).1
  have hfraction : scanFraction ('.' :: (digits ++ rest)) = some ('.' :: digits, rest) := by
    obtain ⟨htake, hdrop⟩ := takeWhile_isDigit hdigits hrest
    rw [scanFraction, scanDigits, htake, hdrop, if_neg hne, Option.map_some]
  have hexponent : scanExponent rest = some ([], rest) := by
    cases rest with
    | nil => rfl
    | cons c rest =>
      obtain ⟨_, _, he, hE⟩ := ends_cons.mp hrest
      simp [scanExponent, he, hE]
  simp [scanMagnitude, hint, hfraction, hexponent]

/-- A text that begins with a digit is read as a number. -/
theorem parseValue_magnitude (depth : ℕ) {c : Char} {text lexeme rest : List Char}
    (hc : c.isDigit = true) (hscan : scanMagnitude (c :: text) = some (lexeme, rest)) :
    parseValue (depth + 1) (c :: text) = some (.number lexeme, rest) := by
  have hother (d : Char) (hd : d.isDigit = false) : c ≠ d := by
    rintro rfl
    exact absurd hc (by simp [hd])
  have hspace : isSpace c = false := by
    simp [isSpace, hother ' ' rfl, hother '\t' rfl, hother '\n' rfl, hother '\r' rfl]
  have hnumber : scanNumber (c :: text) = some (lexeme, rest) := by
    rw [scanNumber, hscan]
    intro _ h
    exact hother '-' rfl (List.cons.inj h).1
  unfold parseValue
  rw [skipSpace_cons hspace]
  split
  · next h => exact absurd (List.cons.inj h).1 (hother '{' rfl)
  · next h => exact absurd (List.cons.inj h).1 (hother '[' rfl)
  · next h => exact absurd (List.cons.inj h).1 (hother '"' rfl)
  · next h => exact absurd (List.cons.inj h).1 (hother 'n' rfl)
  · next h => exact absurd (List.cons.inj h).1 (hother 't' rfl)
  · next h => exact absurd (List.cons.inj h).1 (hother 'f' rfl)
  · rw [hnumber]
    rfl

theorem parseValue_fraction (depth n : ℕ) {digits : List Char} (hne : digits ≠ [])
    (hdigits : ∀ c ∈ digits, c.isDigit = true) :
    Reads (parseValue (depth + 1)) (Nat.toDigits 10 n ++ '.' :: digits)
      (.number (Nat.toDigits 10 n ++ '.' :: digits)) := by
  intro rest hrest
  have hscan := scanMagnitude_fraction n hne hdigits hrest
  obtain ⟨c, more, hcons⟩ := List.exists_cons_of_ne_nil (Nat.toDigits_ne_nil (n := n) (b := 10))
  have hc : c.isDigit = true :=
    Nat.isDigit_of_mem_toDigits (b := 10) (n := n) (by omega) (by omega) (by simp [hcons])
  rw [List.append_assoc, List.cons_append]
  rw [hcons, List.cons_append] at hscan ⊢
  exact parseValue_magnitude depth hc hscan

/-! ## Objects with a last string -/

/-- Items with commas behind them, in front of more items. -/
theorem parseItems_front {α : Type} {item : Parser α} {close : Char}
    {parts : List (List Char × α)} (hitem : ∀ p ∈ parts, Reads item p.1 p.2) (n : ℕ)
    (text : List Char) :
    parseItems item close (parts.length + n) (parts.flatMap (fun p => p.1 ++ [',']) ++ text) =
      (parseItems item close n text).map
        (fun (items, rest) => (parts.map Prod.snd ++ items, rest)) := by
  induction parts with
  | nil => simp
  | cons part parts ih =>
    have hhead : Reads item part.1 part.2 := hitem part List.mem_cons_self
    have htail := ih (fun p hp => hitem p (List.mem_cons_of_mem part hp))
    have hskip (tail : List Char) : skipSpace (',' :: tail) = ',' :: tail := skipSpace_cons rfl tail
    have hcount : (part :: parts).length + n = parts.length + n + 1 := by
      simp only [List.length_cons]
      omega
    rw [hcount, List.flatMap_cons, List.append_assoc, List.append_assoc, List.singleton_append,
      parseItems, hhead _ (ends_cons.mpr (by decide))]
    simp only [hskip, if_true, htail, Option.map_map]
    rfl

/-- Whitespace in front of a member. -/
theorem parseMember_space {value : Parser Value} {space : List Char}
    (hspace : ∀ c ∈ space, isSpace c = true) (text : List Char) :
    parseMember value (space ++ text) = parseMember value text := by
  unfold parseMember
  rw [skipSpace_append hspace]

/-- An object that is not empty. -/
theorem parseValue_members (depth : ℕ) {text tail : List Char} {c : Char}
    (hfirst : skipSpace text = c :: tail) (hc : c ≠ '}') :
    parseValue (depth + 1) ('{' :: text) =
      (parseItems (parseMember (parseValue depth)) '}' text.length text).map
        (fun (members, rest) => (.object members, rest)) := by
  have hopen : skipSpace ('{' :: text) = '{' :: text := skipSpace_cons rfl text
  unfold parseValue
  simp only [hopen, hfirst]
  split
  · next h => exact absurd (List.cons.inj h).1 hc
  · rfl

/-- A member with a string. -/
theorem parseMember_string (depth : ℕ) {space key : List Char}
    (hspace : ∀ c ∈ space, isSpace c = true) (hkey : ∀ c ∈ key, isPlain c = true)
    (text : List Char) :
    parseMember (parseValue (depth + 1)) (space ++ '"' :: (key ++ '"' :: ':' :: ' ' :: '"' :: text)) =
      (scanString text).map (fun (raw, rest) => ((key, .string raw), rest)) := by
  have hscan := scanString_plain hkey (':' :: ' ' :: '"' :: text)
  have hquote (tail : List Char) : skipSpace ('"' :: tail) = '"' :: tail := skipSpace_cons rfl _
  have hcolon (tail : List Char) : skipSpace (':' :: tail) = ':' :: tail := skipSpace_cons rfl _
  have hblank : skipSpace (' ' :: '"' :: text) = '"' :: text := rfl
  rw [parseMember_space hspace]
  simp only [parseMember, hquote, hscan, hcolon]
  simp [parseValue, hblank, Option.map_map, Function.comp_def]

/-- An object: members that are read, and behind them a member with a string. -/
def withLast (parts : List (List Char × (List Char × Value))) (space key text : List Char) :
    List Char :=
  '{' :: (parts.flatMap (fun p => p.1 ++ [',']) ++
    (space ++ '"' :: (key ++ '"' :: ':' :: ' ' :: '"' :: (text ++ ['"', '\n', '}', '\n']))))

section LastString

variable {parts : List (List Char × (List Char × Value))} {space key : List Char}

/-- Such an object is read member by member. -/
theorem parseValue_withLast (depth : ℕ) (space key : List Char) (hparts : parts ≠ [])
    (hmember : ∀ p ∈ parts, Reads (parseMember (parseValue (depth + 1))) p.1 p.2)
    (hfirst : ∀ p ∈ parts, ∃ tail, skipSpace p.1 = '"' :: tail) (text : List Char) :
    ∃ n, parseValue (depth + 2) (withLast parts space key text) =
      (parseItems (parseMember (parseValue (depth + 1))) '}' (n + 1)
        (space ++ '"' :: (key ++ '"' :: ':' :: ' ' :: '"' ::
          (text ++ ['"', '\n', '}', '\n'])))).map
        (fun (items, rest) => (.object (parts.map Prod.snd ++ items), rest)) := by
  obtain ⟨part, parts, rfl⟩ := List.exists_cons_of_ne_nil hparts
  obtain ⟨tail, htail⟩ := hfirst part List.mem_cons_self
  have hcount : ∀ parts : List (List Char × (List Char × Value)),
      parts.length ≤ (parts.flatMap (fun p => p.1 ++ [','])).length := by
    intro parts
    induction parts with
    | nil => simp
    | cons part parts ih =>
      simp only [List.flatMap_cons, List.length_cons, List.length_append, List.length_nil]
      omega
  generalize hlast : space ++ '"' :: (key ++ '"' :: ':' :: ' ' :: '"' ::
    (text ++ ['"', '\n', '}', '\n'])) = last
  have hpos : 0 < last.length := by
    rw [← hlast, List.length_append, List.length_cons]
    omega
  obtain ⟨n, hn⟩ : ∃ n, ((part :: parts).flatMap (fun p => p.1 ++ [',']) ++ last).length =
      (part :: parts).length + (n + 1) := by
    have hparts' := hcount (part :: parts)
    rw [List.length_append]
    exact ⟨_, (show _ = (part :: parts).length + ((((part :: parts).flatMap
      (fun p => p.1 ++ [','])).length + last.length - (part :: parts).length - 1) + 1) by omega)⟩
  have hskip : skipSpace ((part :: parts).flatMap (fun p => p.1 ++ [',']) ++ last) =
      '"' :: (tail ++ (',' :: (parts.flatMap (fun p => p.1 ++ [',']) ++ last))) := by
    rw [List.flatMap_cons, List.append_assoc, List.append_assoc]
    exact skipSpace_append_of_cons htail _
  refine ⟨n, ?_⟩
  rw [withLast, hlast, parseValue_members (depth + 1) hskip (by decide), hn,
    parseItems_front hmember, Option.map_map]
  rfl

variable (hparts : parts ≠ [])
  (hmember : ∀ depth, ∀ p ∈ parts, Reads (parseMember (parseValue (depth + 1))) p.1 p.2)
  (hfirst : ∀ p ∈ parts, ∃ tail, skipSpace p.1 = '"' :: tail)
  (hspace : ∀ c ∈ space, isSpace c = true) (hkey : ∀ c ∈ key, isPlain c = true)

include hparts hmember hfirst hspace hkey

/-- With nothing to escape, the object has these members. -/
theorem parse_withLast {text : List Char} (hplain : ∀ c ∈ text, isPlain c = true) :
    parse (withLast parts space key text) =
      some (.object (parts.map Prod.snd ++ [(key, .string text)])) := by
  obtain ⟨depth, hdepth⟩ : ∃ depth, (withLast parts space key text).length + 1 = depth + 2 :=
    ⟨_, rfl⟩
  obtain ⟨n, hvalue⟩ := parseValue_withLast depth space key hparts (hmember _) hfirst text
  have hitem := parseMember_string depth hspace hkey (text ++ ['"', '\n', '}', '\n'])
  have hscan : scanString (text ++ ['"', '\n', '}', '\n']) = some (text, ['\n', '}', '\n']) :=
    scanString_plain hplain _
  have hskip : skipSpace ['\n', '}', '\n'] = ['}', '\n'] := rfl
  rw [hscan, Option.map_some] at hitem
  rw [parse, hdepth, hvalue, parseItems, hitem]
  simp only [hskip]
  rfl

/-- If the object is read at all, what is read of its last string is behind the other members. -/
theorem parse_withLast_sound {text : List Char} {v : Value}
    (h : parse (withLast parts space key text) = some v) :
    ∃ raw rest more, scanString (text ++ ['"', '\n', '}', '\n']) = some (raw, rest) ∧
      v = .object (parts.map Prod.snd ++ (key, .string raw) :: more) := by
  obtain ⟨depth, hdepth⟩ : ∃ depth, (withLast parts space key text).length + 1 = depth + 2 :=
    ⟨_, rfl⟩
  obtain ⟨n, hvalue⟩ := parseValue_withLast depth space key hparts (hmember _) hfirst text
  rw [parse, hdepth, hvalue, parseItems,
    parseMember_string depth hspace hkey (text ++ ['"', '\n', '}', '\n'])] at h
  cases hscan : scanString (text ++ ['"', '\n', '}', '\n']) with
  | none => simp [hscan] at h
  | some result =>
    obtain ⟨raw, rest⟩ := result
    simp only [hscan, Option.map_some] at h
    cases hskip : skipSpace rest with
    | nil => simp [hskip] at h
    | cons c rest' =>
      simp only [hskip] at h
      by_cases hcomma : c = ','
      · rw [if_pos hcomma] at h
        cases hitems : parseItems (parseMember (parseValue (depth + 1))) '}' n rest' with
        | none => simp [hitems] at h
        | some items =>
          simp only [hitems, Option.map_some] at h
          split at h
          · cases h
            exact ⟨raw, rest, items.1, rfl, rfl⟩
          · cases h
      · rw [if_neg hcomma] at h
        by_cases hclose : c = '}'
        · rw [if_pos hclose, Option.map_some] at h
          dsimp only at h
          split at h
          · cases h
            exact ⟨raw, rest, [], rfl, rfl⟩
          · cases h
        · simp [hclose] at h

/-- The member with the string stands for the text exactly if there is nothing to escape in it. -/
theorem parse_withLast_iff (hkeys : ∀ p ∈ parts, p.2.1 ≠ key) (text : List Char) :
    (∃ v raw, parse (withLast parts space key text) = some v ∧
      v.member key = some (.string raw) ∧ unescape raw = some text) ↔
    ∀ c ∈ text, isPlain c = true := by
  have hlookup : ∀ raw more, (parts.map Prod.snd ++ (key, Value.string raw) :: more).lookup key =
      some (.string raw) := by
    intro raw more
    have hnone : (parts.map Prod.snd).lookup key = none := by
      rw [List.lookup_eq_none_iff]
      intro p hp
      obtain ⟨part, hpart, rfl⟩ := List.mem_map.mp hp
      simpa using Ne.symm (hkeys part hpart)
    rw [List.lookup_append, hnone]
    simp
  constructor
  · rintro ⟨v, raw, hparse, hraw, hunescape⟩
    obtain ⟨raw', rest, more, hscan, rfl⟩ :=
      parse_withLast_sound hparts hmember hfirst hspace hkey hparse
    rw [Value.member, hlookup] at hraw
    cases hraw
    exact (unescape_scanString_iff text).mp ⟨raw, rest, hscan, hunescape⟩
  · intro hplain
    refine ⟨_, text, parse_withLast hparts hmember hfirst hspace hkey hplain, ?_,
      unescape_plain hplain⟩
    exact hlookup text []

end LastString

end Json
