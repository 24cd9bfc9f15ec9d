import Argus.Base.Digits
import Argus.Base.Json

/-!
# JSON text

Number literals, string escapes, printing in a style (which characters are escaped, what follows a
comma) and one parser for the JSON grammar. The parser inverts printing in every style, so a printed
text determines the value and a style determines a normal form of text.
-/

namespace Argus.JsonText

open Digits

/-! ## Number literals -/

/-- The exponent of a literal: its letter, sign character and digits, at least one. -/
structure Exponent where
  upper : Bool
  negative : Option Bool
  lead : Fin 10
  rest : List (Fin 10)
deriving DecidableEq, Repr

/-- A number as written. The integer part has no leading zeros; an absent fraction has no digits. -/
structure Literal where
  neg : Bool
  int : ℕ
  frac : List (Fin 10)
  exp : Option Exponent
deriving DecidableEq, Repr

def signText : Option Bool → Text
  | none => []
  | some true => ['-']
  | some false => ['+']

def Exponent.text (e : Exponent) : Text :=
  (if e.upper then 'E' else 'e') :: (signText e.negative ++ digitText (e.lead :: e.rest))

def fracText (ds : List (Fin 10)) : Text := if ds = [] then [] else '.' :: digitText ds

def expText : Option Exponent → Text
  | none => []
  | some e => e.text

def Literal.text (l : Literal) : Text :=
  signText (if l.neg then some true else none) ++
    (Nat.toDigits 10 l.int ++ (fracText l.frac ++ expText l.exp))

/-- An integer part: the decimal text of a number, hence without leading zeros. -/
def scanInt (t : Text) : Option (ℕ × Text) :=
  let n := Nat.ofDigitChars 10 (t.takeWhile Char.isDigit) 0
  if Nat.toDigits 10 n = t.takeWhile Char.isDigit then some (n, t.dropWhile Char.isDigit) else none

def scanFrac : Text → Option (List (Fin 10) × Text)
  | '.' :: t => if (scanDigits t).1 = [] then none else some (scanDigits t)
  | t => some ([], t)

def scanSign : Text → Option Bool × Text
  | '-' :: t => (some true, t)
  | '+' :: t => (some false, t)
  | t => (none, t)

def scanExp : Text → Option (Option Exponent × Text)
  | [] => some (none, [])
  | c :: t =>
    if c = 'e' ∨ c = 'E' then
      match scanDigits (scanSign t).2 with
      | ([], _) => none
      | (d :: ds, rest) => some (some ⟨c == 'E', (scanSign t).1, d, ds⟩, rest)
    else some (none, c :: t)

def scanMinus : Text → Bool × Text
  | '-' :: t => (true, t)
  | t => (false, t)

/-- The number literal at the start of a text. -/
def scanNumber (t : Text) : Option (Literal × Text) := do
  let (neg, t) := scanMinus t
  let (int, t) ← scanInt t
  let (frac, t) ← scanFrac t
  let (exp, t) ← scanExp t
  some (⟨neg, int, frac, exp⟩, t)

/-- A text that does not continue a number literal. -/
def EndsNumber (t : Text) : Prop :=
  ∀ c ∈ t.head?, c.isDigit = false ∧ c ≠ '.' ∧ c ≠ 'e' ∧ c ≠ 'E'

variable {t : Text}

theorem scanInt_toDigits (n : ℕ) (ht : EndsDigits t) :
    scanInt (Nat.toDigits 10 n ++ t) = some (n, t) := by
  have hds : ∀ c ∈ Nat.toDigits 10 n, c.isDigit = true := fun c hc =>
    Nat.isDigit_of_mem_toDigits (by decide) (by decide) hc
  simp [scanInt, takeWhile_isDigit hds ht, dropWhile_isDigit hds ht]

theorem endsDigits_of_endsNumber (h : EndsNumber t) : EndsDigits t :=
  fun c hc => (h c hc).1

theorem scanFrac_fracText (ds : List (Fin 10)) (ht : EndsDigits t) (hdot : ∀ c ∈ t.head?, c ≠ '.') :
    scanFrac (fracText ds ++ t) = some (ds, t) := by
  by_cases hds : ds = []
  · subst hds
    simp only [fracText, if_true, List.nil_append]
    unfold scanFrac
    split
    · exact absurd rfl (hdot '.' rfl)
    · rfl
  · simp [fracText, hds, scanFrac, scanDigits_digitText ds ht]

theorem scanSign_signText (s : Option Bool) (d : Fin 10) (ds : List (Fin 10)) (t : Text) :
    scanSign (signText s ++ (digitText (d :: ds) ++ t)) = (s, digitText (d :: ds) ++ t) := by
  match s with
  | none =>
    have hne : ∀ d : Fin 10, Nat.digitChar d ≠ '-' ∧ Nat.digitChar d ≠ '+' := by decide
    simp [signText, digitText, scanSign, hne d]
  | some true => rfl
  | some false => rfl

theorem scanExp_expText (e : Option Exponent) (ht : EndsNumber t) :
    scanExp (expText e ++ t) = some (e, t) := by
  cases e with
  | none =>
    cases t with
    | nil => rfl
    | cons c t =>
      have hc := ht c rfl
      simp [expText, scanExp, hc]
  | some e =>
    have hdigits := scanDigits_digitText (e.lead :: e.rest) (endsDigits_of_endsNumber ht)
    have hsign := scanSign_signText e.negative e.lead e.rest t
    obtain ⟨upper, negative, lead, rest⟩ := e
    simp only at hdigits hsign
    cases upper <;> simp [expText, Exponent.text, scanExp, hsign, hdigits]

theorem endsDigits_expText (e : Option Exponent) (ht : EndsNumber t) :
    EndsDigits (expText e ++ t) := by
  cases e with
  | none => exact endsDigits_of_endsNumber ht
  | some e => cases hu : e.upper <;> simp [EndsDigits, expText, Exponent.text, hu]

theorem endsDigits_fracText (ds : List (Fin 10)) (ht : EndsDigits t) :
    EndsDigits (fracText ds ++ t) := by
  unfold fracText
  split
  · exact ht
  · simp [EndsDigits]

theorem dot_not_head_expText (e : Option Exponent) (ht : EndsNumber t) :
    ∀ c ∈ (expText e ++ t).head?, c ≠ '.' := by
  cases e with
  | none => exact fun c hc => (ht c hc).2.1
  | some e => cases hu : e.upper <;> simp [expText, Exponent.text, hu]

/-- A literal is read back from its text, whatever follows that does not continue it. -/
theorem scanNumber_text (l : Literal) (ht : EndsNumber t) :
    scanNumber (l.text ++ t) = some (l, t) := by
  obtain ⟨neg, int, frac, exp⟩ := l
  have hexp := scanExp_expText exp ht
  have hfrac := scanFrac_fracText frac (endsDigits_expText exp ht) (dot_not_head_expText exp ht)
  have hint := scanInt_toDigits int (endsDigits_fracText frac (endsDigits_expText exp ht))
  have hminus : scanMinus (Literal.text ⟨neg, int, frac, exp⟩ ++ t)
      = (neg, Nat.toDigits 10 int ++ (fracText frac ++ (expText exp ++ t))) := by
    cases neg with
    | true => simp [Literal.text, signText, scanMinus]
    | false =>
      have hne := Nat.toDigits_ne_nil (b := 10) (n := int)
      obtain ⟨c, cs, hcs⟩ := List.exists_cons_of_ne_nil hne
      have hc : c.isDigit = true :=
        Nat.isDigit_of_mem_toDigits (by decide) (by decide) (hcs ▸ List.mem_cons_self)
      have hc' : c ≠ '-' := by
        rintro rfl
        exact absurd hc (by decide)
      simp [Literal.text, signText, hcs, scanMinus, hc']
  simp only [scanNumber, hminus, hint, Option.bind_eq_bind, Option.bind_some, hfrac, hexp]

/-! ## Strings -/

def hexValue (c : Char) : Option ℕ :=
  if c.isDigit then some (c.toNat - '0'.toNat)
  else if 'a' ≤ c ∧ c ≤ 'f' then some (c.toNat - 'a'.toNat + 10)
  else if 'A' ≤ c ∧ c ≤ 'F' then some (c.toNat - 'A'.toNat + 10)
  else none

/-- The code unit of four hexadecimal digits. -/
def readHex4 : Text → Option (ℕ × Text)
  | a :: b :: c :: d :: t => do
      let a ← hexValue a
      let b ← hexValue b
      let c ← hexValue c
      let d ← hexValue d
      some (((a * 16 + b) * 16 + c) * 16 + d, t)
  | _ => none

/-- The character after `\u`. A pair of surrogates is one character; a lone one is replaced. -/
def readUnicode (t : Text) : Option (Char × Text) := do
  let (n, t) ← readHex4 t
  if n < 0xd800 ∨ 0xdfff < n then some (Char.ofNat n, t)
  else
    let second := match t with
      | '\\' :: 'u' :: t => readHex4 t
      | _ => none
    match second with
    | some (m, rest) =>
      if n ≤ 0xdbff ∧ 0xdc00 ≤ m ∧ m ≤ 0xdfff then
        some (Char.ofNat (0x10000 + (n - 0xd800) * 0x400 + (m - 0xdc00)), rest)
      else some ('\ufffd', t)
    | none => some ('\ufffd', t)

/-- One character of a string. -/
def readChar : Text → Option (Char × Text)
  | '\\' :: 'u' :: t => readUnicode t
  | '\\' :: '"' :: t => some ('"', t)
  | '\\' :: '\\' :: t => some ('\\', t)
  | '\\' :: '/' :: t => some ('/', t)
  | '\\' :: 'b' :: t => some ('\x08', t)
  | '\\' :: 'f' :: t => some ('\x0c', t)
  | '\\' :: 'n' :: t => some ('\n', t)
  | '\\' :: 'r' :: t => some ('\r', t)
  | '\\' :: 't' :: t => some ('\t', t)
  | '\\' :: _ => none
  | c :: t => if c.toNat < 0x20 then none else some (c, t)
  | [] => none

/-- The characters up to the closing quote, fewer than `fuel` of them. -/
def readString : ℕ → Text → Option (Text × Text)
  | 0, _ => none
  | fuel + 1, t =>
    match t with
    | '"' :: t => some ([], t)
    | t => do
        let (c, t) ← readChar t
        let (cs, t) ← readString fuel t
        some (c :: cs, t)

def isBlank (c : Char) : Bool := c == ' ' || c == '\t' || c == '\n' || c == '\r'

/-- How a printer writes strings and separators. What it writes for a character reads as that
character, and after a comma or a colon it only leaves blanks. -/
structure Style where
  escape : Char → Text
  gap : Text
  readChar_escape : ∀ c t, readChar (escape c ++ t) = some (c, t)
  escape_ne_quote : ∀ c, ∃ d ds, escape c = d :: ds ∧ d ≠ '"'
  isBlank_gap : ∀ c ∈ gap, isBlank c = true

def quote (st : Style) (s : String) : Text := '"' :: (s.toList.flatMap st.escape ++ ['"'])

/-- The escapes that every printer shares: quote, backslash and control characters. -/
def escapeBasic (c : Char) : Text :=
  if c = '"' then ['\\', '"']
  else if c = '\\' then ['\\', '\\']
  else if c = '\x08' then ['\\', 'b']
  else if c = '\x0c' then ['\\', 'f']
  else if c = '\n' then ['\\', 'n']
  else if c = '\r' then ['\\', 'r']
  else if c = '\t' then ['\\', 't']
  else if c.toNat < 0x20 then
    ['\\', 'u', '0', '0', Nat.digitChar (c.toNat / 16), Nat.digitChar (c.toNat % 16)]
  else [c]

theorem hexValue_digitChar : ∀ n : Fin 16, hexValue (Nat.digitChar n) = some n.val := by decide

theorem readChar_control {n : ℕ} (hn : n < 0x20) (t : Text) :
    readChar ('\\' :: 'u' :: '0' :: '0' :: Nat.digitChar (n / 16) :: Nat.digitChar (n % 16) :: t)
      = some (Char.ofNat n, t) := by
  have h0 : hexValue '0' = some 0 := by decide
  have hhigh : hexValue (Nat.digitChar (n / 16)) = some (n / 16) :=
    hexValue_digitChar ⟨n / 16, by omega⟩
  have hlow : hexValue (Nat.digitChar (n % 16)) = some (n % 16) :=
    hexValue_digitChar ⟨n % 16, by omega⟩
  have hvalue : ((0 * 16 + 0) * 16 + n / 16) * 16 + n % 16 = n := by omega
  have hscalar : n < 0xd800 ∨ 0xdfff < n := by omega
  simp only [readChar, readUnicode, readHex4, h0, hhigh, hlow, Option.bind_eq_bind,
    Option.bind_some, hvalue, if_pos hscalar]

variable {c : Char}

theorem readChar_plain (hc : c ≠ '\\') (h20 : ¬ c.toNat < 0x20) (t : Text) :
    readChar (c :: t) = some (c, t) := by
  unfold readChar
  split <;> simp_all

theorem readChar_escapeBasic (c : Char) (t : Text) : readChar (escapeBasic c ++ t) = some (c, t) := by
  unfold escapeBasic
  split_ifs with h1 h2 h3 h4 h5 h6 h7 h8
  case pos => rw [h1]; rfl
  case pos => rw [h2]; rfl
  case pos => rw [h3]; rfl
  case pos => rw [h4]; rfl
  case pos => rw [h5]; rfl
  case pos => rw [h6]; rfl
  case pos => rw [h7]; rfl
  case pos =>
    have hchar := readChar_control h8 t
    rwa [Char.ofNat_toNat] at hchar
  case neg => exact readChar_plain h2 h8 t

theorem escapeBasic_ne_quote (c : Char) : ∃ d ds, escapeBasic c = d :: ds ∧ d ≠ '"' := by
  unfold escapeBasic
  split_ifs with h1
  case neg => exact ⟨c, [], rfl, h1⟩
  all_goals exact ⟨_, _, rfl, by decide⟩

theorem readString_quote (st : Style) (cs : Text) {fuel : ℕ} (hfuel : cs.length < fuel) (t : Text) :
    readString fuel (cs.flatMap st.escape ++ '"' :: t) = some (cs, t) := by
  induction cs generalizing fuel with
  | nil =>
    obtain ⟨n, rfl⟩ := Nat.exists_eq_succ_of_ne_zero (Nat.ne_of_gt hfuel)
    rfl
  | cons c cs ih =>
    obtain ⟨n, rfl⟩ := Nat.exists_eq_succ_of_ne_zero (Nat.ne_of_gt (Nat.zero_lt_of_lt hfuel))
    have hread := st.readChar_escape c (cs.flatMap st.escape ++ '"' :: t)
    have hrest := ih (Nat.lt_of_succ_lt_succ hfuel)
    obtain ⟨d, ds, hd, hne⟩ := st.escape_ne_quote c
    rw [List.flatMap_cons, List.append_assoc]
    rw [hd] at hread ⊢
    rw [List.cons_append] at hread ⊢
    simp only [readString]
    split
    · rename_i heq
      cases heq
      exact absurd rfl hne
    · simp only [hread, hrest, Option.bind_eq_bind, Option.bind_some]

/-! ## Printing -/

/-- Texts separated by commas. -/
def joined (st : Style) : List Text → Text
  | [] => []
  | t :: ts => t ++ ts.flatMap fun u => ',' :: (st.gap ++ u)

/-- An object whose values are already printed. -/
def objectText (st : Style) (members : List (String × Text)) : Text :=
  '\x7b' :: (joined st (members.map fun m => quote st m.1 ++ ':' :: (st.gap ++ m.2)) ++ ['\x7d'])

def printer (st : Style) : Json.Algebra Literal Text where
  null := ['n', 'u', 'l', 'l']
  bool b := if b then ['t', 'r', 'u', 'e'] else ['f', 'a', 'l', 's', 'e']
  num := Literal.text
  str := quote st
  arr items := '[' :: (joined st items ++ [']'])
  obj := objectText st

/-- The text of a value. -/
def print (st : Style) : Json Literal → Text := Json.fold (printer st)

theorem print_arr (st : Style) (items : List (Json Literal)) :
    print st (.arr items) = '[' :: (joined st (items.map (print st)) ++ [']']) :=
  Json.fold_arr _ _

theorem print_obj (st : Style) (members : List (String × Json Literal)) :
    print st (.obj members) = objectText st (members.map fun m => (m.1, print st m.2)) :=
  Json.fold_obj _ _

/-! ## Parsing -/

def skipBlank (t : Text) : Text := t.dropWhile isBlank

mutual

/-- The value at the start of a text. -/
def readValue : ℕ → Text → Option (Json Literal × Text)
  | 0, _ => none
  | fuel + 1, t =>
    match skipBlank t with
    | '"' :: t => do
        let (cs, t) ← readString t.length t
        some (.str (String.ofList cs), t)
    | '[' :: t =>
      match skipBlank t with
      | ']' :: t => some (.arr [], t)
      | t => do
          let (vs, t) ← readItems fuel t
          some (.arr vs, t)
    | '\x7b' :: t =>
      match skipBlank t with
      | '\x7d' :: t => some (.obj [], t)
      | t => do
          let (ms, t) ← readMembers fuel t
          some (.obj ms, t)
    | 'n' :: 'u' :: 'l' :: 'l' :: t => some (.null, t)
    | 't' :: 'r' :: 'u' :: 'e' :: t => some (.bool true, t)
    | 'f' :: 'a' :: 'l' :: 's' :: 'e' :: t => some (.bool false, t)
    | t => do
        let (l, t) ← scanNumber t
        some (.num l, t)

/-- The items of a nonempty array up to its bracket. -/
def readItems : ℕ → Text → Option (List (Json Literal) × Text)
  | 0, _ => none
  | fuel + 1, t => do
      let (v, t) ← readValue fuel t
      match skipBlank t with
      | ',' :: t => do
          let (vs, t) ← readItems fuel t
          some (v :: vs, t)
      | ']' :: t => some ([v], t)
      | _ => none

/-- The members of a nonempty object up to its brace. -/
def readMembers : ℕ → Text → Option (List (String × Json Literal) × Text)
  | 0, _ => none
  | fuel + 1, t =>
    match skipBlank t with
    | '"' :: t => do
        let (k, t) ← readString t.length t
        match skipBlank t with
        | ':' :: t => do
            let (v, t) ← readValue fuel t
            match skipBlank t with
            | ',' :: t => do
                let (ms, t) ← readMembers fuel t
                some ((String.ofList k, v) :: ms, t)
            | '\x7d' :: t => some ([(String.ofList k, v)], t)
            | _ => none
        | _ => none
    | _ => none

end

/-- The first value of a text; what follows it is ignored. -/
def parse (t : Text) : Option (Json Literal) := (readValue t.length t).map (·.1)

/-! ## Parsing inverts printing -/

theorem skipBlank_cons (hc : isBlank c = false) (t : Text) : skipBlank (c :: t) = c :: t := by
  simp [skipBlank, hc]

variable {g : Text}

theorem skipBlank_append (hg : ∀ c ∈ g, isBlank c = true) (t : Text) :
    skipBlank (g ++ t) = skipBlank t :=
  List.dropWhile_append_of_pos hg

theorem readValue_append (hg : ∀ c ∈ g, isBlank c = true) (fuel : ℕ) (t : Text) :
    readValue fuel (g ++ t) = readValue fuel t := by
  cases fuel with
  | zero => simp [readValue]
  | succ fuel => simp only [readValue, skipBlank_append hg]

theorem readItems_append (hg : ∀ c ∈ g, isBlank c = true) (fuel : ℕ) (t : Text) :
    readItems fuel (g ++ t) = readItems fuel t := by
  cases fuel with
  | zero => simp [readItems]
  | succ fuel => simp only [readItems, readValue_append hg]

theorem readMembers_append (hg : ∀ c ∈ g, isBlank c = true) (fuel : ℕ) (t : Text) :
    readMembers fuel (g ++ t) = readMembers fuel t := by
  cases fuel with
  | zero => simp [readMembers]
  | succ fuel => simp only [readMembers, skipBlank_append hg]

/-- The first character of a number literal. -/
def StartsNumber (c : Char) : Prop := c = '-' ∨ c.isDigit = true

theorem exists_text_eq_cons (l : Literal) : ∃ c t, l.text = c :: t ∧ StartsNumber c := by
  obtain ⟨neg, int, frac, exp⟩ := l
  cases neg with
  | true => exact ⟨'-', _, rfl, Or.inl rfl⟩
  | false =>
    obtain ⟨c, cs, hcs⟩ := List.exists_cons_of_ne_nil (Nat.toDigits_ne_nil (b := 10) (n := int))
    refine ⟨c, cs ++ (fracText frac ++ expText exp), ?_, Or.inr ?_⟩
    · simp [Literal.text, signText, hcs]
    · exact Nat.isDigit_of_mem_toDigits (by decide) (by decide) (hcs ▸ List.mem_cons_self)

theorem StartsNumber.ne {d : Char} (h : StartsNumber c) (hd : d ≠ '-') (hdigit : d.isDigit = false) :
    c ≠ d := by
  rintro rfl
  rcases h with rfl | h
  · exact hd rfl
  · rw [h] at hdigit
    exact Bool.noConfusion hdigit

theorem StartsNumber.visible (h : StartsNumber c) : 0x20 < c.toNat ∧ c.toNat < 0x80 := by
  rcases h with rfl | h
  · decide
  · simp only [Char.isDigit, Bool.and_eq_true, decide_eq_true_eq, ge_iff_le, UInt32.le_iff_toNat_le] at h
    exact ⟨Nat.lt_of_lt_of_le (by decide) h.1, Nat.lt_of_le_of_lt h.2 (by decide)⟩

theorem not_blank_of_visible (h : 0x20 < c.toNat) : isBlank c = false := by
  simp only [isBlank, Bool.or_eq_false_iff, beq_eq_false_iff_ne]
  refine ⟨⟨⟨?_, ?_⟩, ?_⟩, ?_⟩ <;> rintro rfl <;> exact absurd h (by decide)

theorem readValue_number {l : Literal} (ht : EndsNumber t) (fuel : ℕ) :
    readValue (fuel + 1) (l.text ++ t) = some (.num l, t) := by
  have hscan := scanNumber_text l ht
  obtain ⟨c, cs, htext, hc⟩ := exists_text_eq_cons l
  rw [htext, List.cons_append] at hscan ⊢
  simp only [readValue, skipBlank_cons (not_blank_of_visible hc.visible.1)]
  split
  case h_7 => simp only [hscan, Option.bind_eq_bind, Option.bind_some]
  all_goals
    rename_i heq
    obtain ⟨rfl, -⟩ := List.cons_eq_cons.mp heq
    exact absurd rfl (hc.ne (by decide) (by decide))

/-- A printed value starts with a visible ASCII character that is no closing bracket. -/
theorem exists_print_eq_cons (st : Style) (v : Json Literal) :
    ∃ c t, print st v = c :: t ∧ 0x20 < c.toNat ∧ c.toNat < 0x80 ∧ c ≠ ']' := by
  cases v with
  | null => exact ⟨'n', _, rfl, by decide, by decide, by decide⟩
  | bool b => cases b <;> exact ⟨_, _, rfl, by decide, by decide, by decide⟩
  | num l =>
    obtain ⟨c, t, htext, hc⟩ := exists_text_eq_cons l
    exact ⟨c, t, htext, hc.visible.1, hc.visible.2, hc.ne (by decide) (by decide)⟩
  | str s => exact ⟨'"', _, rfl, by decide, by decide, by decide⟩
  | arr items => exact ⟨'[', _, print_arr st items, by decide, by decide, by decide⟩
  | obj members => exact ⟨'\x7b', _, print_obj st members, by decide, by decide, by decide⟩

theorem readString_quote_length (st : Style) (s : String) (t : Text) :
    readString (s.toList.flatMap st.escape ++ '"' :: t).length
      (s.toList.flatMap st.escape ++ '"' :: t) = some (s.toList, t) := by
  refine readString_quote st s.toList ?_ t
  have hlen : ∀ cs : Text, cs.length ≤ (cs.flatMap st.escape).length := fun cs => by
    induction cs with
    | nil => simp
    | cons c cs ih =>
      obtain ⟨d, ds, hd, -⟩ := st.escape_ne_quote c
      simp only [List.flatMap_cons, List.length_append, List.length_cons, hd]
      omega
  have := hlen s.toList
  simp only [List.length_append, List.length_cons]
  omega

/-- A bound on the fuel that reading a printed value takes. -/
def weight : Json Literal → ℕ :=
  Json.fold
    { null := 1
      bool := fun _ => 1
      num := fun _ => 1
      str := fun _ => 1
      arr := fun ws => 1 + (ws.map (· + 1)).sum
      obj := fun ms => 1 + (ms.map (·.2 + 1)).sum }

theorem weight_arr (items : List (Json Literal)) :
    weight (.arr items) = 1 + (items.map fun v => weight v + 1).sum := by
  simp only [weight, Json.fold_arr, List.map_map]
  rfl

theorem weight_obj (members : List (String × Json Literal)) :
    weight (.obj members) = 1 + (members.map fun m => weight m.2 + 1).sum := by
  simp only [weight, Json.fold_obj, List.map_map]
  rfl

theorem weight_pos (v : Json Literal) : 0 < weight v := by
  cases v with
  | null | bool | num | str => exact Nat.one_pos
  | arr items => rw [weight_arr]; omega
  | obj members => rw [weight_obj]; omega

theorem exists_fuel_eq_succ {v : Json Literal} {fuel : ℕ} (h : weight v ≤ fuel) :
    ∃ n, fuel = n + 1 :=
  Nat.exists_eq_succ_of_ne_zero (Nat.ne_of_gt (Nat.lt_of_lt_of_le (weight_pos v) h))

/-- The value is read back from its text, whatever follows that continues no number. -/
def ReadsBack (st : Style) (v : Json Literal) : Prop :=
  ∀ fuel t, weight v ≤ fuel → EndsNumber t → readValue fuel (print st v ++ t) = some (v, t)

theorem readItems_print (st : Style) (vs : List (Json Literal)) (v : Json Literal)
    (fuel : ℕ) (h : ∀ w ∈ v :: vs, ReadsBack st w)
    (hfuel : ((v :: vs).map fun w => weight w + 1).sum ≤ fuel) (t : Text) :
    readItems fuel (joined st ((v :: vs).map (print st)) ++ ']' :: t) = some (v :: vs, t) := by
  induction vs generalizing v fuel with
  | nil =>
    obtain ⟨n, rfl⟩ : ∃ n, fuel = n + 1 := ⟨fuel - 1, by simp at hfuel; omega⟩
    have hv := h v List.mem_cons_self n (']' :: t) (by simpa using hfuel) (by simp [EndsNumber])
    simp only [readItems, joined, List.map_cons, List.map_nil, List.flatMap_nil, List.append_nil,
      hv, Option.bind_eq_bind, Option.bind_some, skipBlank_cons (by decide : isBlank ']' = false)]
  | cons w ws ih =>
    obtain ⟨n, rfl⟩ : ∃ n, fuel = n + 1 := ⟨fuel - 1, by simp at hfuel; omega⟩
    simp only [List.map_cons, List.sum_cons] at hfuel
    have hrest := ih w n (fun u hu => h u (List.mem_cons_of_mem _ hu))
      (by simp only [List.map_cons, List.sum_cons]; omega)
    have hv := h v List.mem_cons_self n
      (',' :: (st.gap ++ (joined st ((w :: ws).map (print st)) ++ ']' :: t))) (by omega)
      (by simp [EndsNumber])
    have htext : joined st ((v :: w :: ws).map (print st)) ++ ']' :: t
        = print st v ++ ',' :: (st.gap ++ (joined st ((w :: ws).map (print st)) ++ ']' :: t)) := by
      simp [joined]
    rw [htext]
    simp only [readItems, hv, Option.bind_eq_bind, Option.bind_some,
      skipBlank_cons (by decide : isBlank ',' = false), readItems_append st.isBlank_gap, hrest]

/-- The text of one member of an object. -/
def memberText (st : Style) (m : String × Json Literal) : Text :=
  quote st m.1 ++ ':' :: (st.gap ++ print st m.2)

/-- One member is read back, up to the check of what follows it. -/
theorem readMembers_member (st : Style) {m : String × Json Literal} (h : ReadsBack st m.2) {n : ℕ}
    (hn : weight m.2 ≤ n) (ht : EndsNumber t) :
    readMembers (n + 1) (memberText st m ++ t)
      = match skipBlank t with
        | ',' :: t => do
            let (ms, t) ← readMembers n t
            some (m :: ms, t)
        | '\x7d' :: t => some ([m], t)
        | _ => none := by
  have hkey := readString_quote_length st m.1 (':' :: (st.gap ++ (print st m.2 ++ t)))
  have hvalue := h n t hn ht
  have htext : memberText st m ++ t
      = '"' :: (m.1.toList.flatMap st.escape ++ '"' :: ':' :: (st.gap ++ (print st m.2 ++ t))) := by
    simp [memberText, quote]
  rw [htext]
  simp only [readMembers, skipBlank_cons (by decide : isBlank '"' = false), hkey,
    Option.bind_eq_bind, Option.bind_some, skipBlank_cons (by decide : isBlank ':' = false),
    readValue_append st.isBlank_gap, hvalue, String.ofList_toList]

theorem readMembers_print (st : Style) (ms : List (String × Json Literal))
    (m : String × Json Literal) (fuel : ℕ) (h : ∀ n ∈ m :: ms, ReadsBack st n.2)
    (hfuel : ((m :: ms).map fun n => weight n.2 + 1).sum ≤ fuel) (t : Text) :
    readMembers fuel (joined st ((m :: ms).map (memberText st)) ++ '\x7d' :: t)
      = some (m :: ms, t) := by
  induction ms generalizing m fuel with
  | nil =>
    obtain ⟨n, rfl⟩ : ∃ n, fuel = n + 1 := ⟨fuel - 1, by simp at hfuel; omega⟩
    have hm := readMembers_member st (h m List.mem_cons_self) (n := n) (by simpa using hfuel)
      (t := '\x7d' :: t) (by simp [EndsNumber])
    simp only [joined, List.map_cons, List.map_nil, List.flatMap_nil, List.append_nil, hm,
      skipBlank_cons (by decide : isBlank '\x7d' = false)]
  | cons k ks ih =>
    obtain ⟨n, rfl⟩ : ∃ n, fuel = n + 1 := ⟨fuel - 1, by simp at hfuel; omega⟩
    simp only [List.map_cons, List.sum_cons] at hfuel
    have hrest := ih k n (fun u hu => h u (List.mem_cons_of_mem _ hu))
      (by simp only [List.map_cons, List.sum_cons]; omega)
    have hm := readMembers_member st (h m List.mem_cons_self) (n := n) (by omega)
      (t := ',' :: (st.gap ++ (joined st ((k :: ks).map (memberText st)) ++ '\x7d' :: t)))
      (by simp [EndsNumber])
    have htext : joined st ((m :: k :: ks).map (memberText st)) ++ '\x7d' :: t
        = memberText st m
          ++ ',' :: (st.gap ++ (joined st ((k :: ks).map (memberText st)) ++ '\x7d' :: t)) := by
      simp [joined]
    rw [htext, hm]
    simp only [skipBlank_cons (by decide : isBlank ',' = false),
      readMembers_append st.isBlank_gap, hrest, Option.bind_eq_bind, Option.bind_some]

theorem print_obj_eq_joined (st : Style) (members : List (String × Json Literal)) :
    print st (.obj members) = '\x7b' :: (joined st (members.map (memberText st)) ++ ['\x7d']) := by
  rw [print_obj, objectText, List.map_map]
  rfl

/-- The parser inverts printing in every style. -/
theorem readsBack (st : Style) (v : Json Literal) : ReadsBack st v := by
  induction v using Json.induction with
  | null =>
    intro fuel t hfuel _
    obtain ⟨n, rfl⟩ := exists_fuel_eq_succ hfuel
    rfl
  | bool b =>
    intro fuel t hfuel _
    obtain ⟨n, rfl⟩ := exists_fuel_eq_succ hfuel
    cases b <;> rfl
  | num l =>
    intro fuel t hfuel ht
    obtain ⟨n, rfl⟩ := exists_fuel_eq_succ hfuel
    exact readValue_number ht n
  | str s =>
    intro fuel t hfuel _
    obtain ⟨n, rfl⟩ := exists_fuel_eq_succ hfuel
    have htext : print st (.str s) ++ t = '"' :: (s.toList.flatMap st.escape ++ '"' :: t) := by
      simp [print, Json.fold, printer, quote]
    rw [htext]
    simp only [readValue, skipBlank_cons (by decide : isBlank '"' = false),
      readString_quote_length, Option.bind_eq_bind, Option.bind_some, String.ofList_toList]
  | arr items ih =>
    intro fuel t hfuel _
    obtain ⟨n, rfl⟩ := exists_fuel_eq_succ hfuel
    rw [weight_arr] at hfuel
    rw [print_arr, List.cons_append, List.append_assoc, List.singleton_append]
    cases items with
    | nil => rfl
    | cons v vs =>
      have hitems := readItems_print st vs v n ih (by omega) t
      obtain ⟨c, cs, hc, hvisible, -, hne⟩ := exists_print_eq_cons st v
      have hhead : joined st ((v :: vs).map (print st)) ++ ']' :: t
          = c :: (cs ++ ((vs.map (print st)).flatMap (fun u => ',' :: (st.gap ++ u))
            ++ ']' :: t)) := by
        simp [joined, hc]
      rw [hhead] at hitems ⊢
      simp only [readValue, skipBlank_cons (by decide : isBlank '[' = false),
        skipBlank_cons (not_blank_of_visible hvisible)]
      split
      · rename_i heq
        exact absurd (List.cons_eq_cons.mp heq).1 hne
      · simp only [hitems, Option.bind_eq_bind, Option.bind_some]
  | obj members ih =>
    intro fuel t hfuel _
    obtain ⟨n, rfl⟩ := exists_fuel_eq_succ hfuel
    rw [weight_obj] at hfuel
    rw [print_obj_eq_joined, List.cons_append, List.append_assoc, List.singleton_append]
    cases members with
    | nil => rfl
    | cons m ms =>
      have hmembers := readMembers_print st ms m n ih (by omega) t
      obtain ⟨cs, hhead⟩ : ∃ cs,
          joined st ((m :: ms).map (memberText st)) ++ '\x7d' :: t = '"' :: cs := ⟨_, rfl⟩
      rw [hhead] at hmembers ⊢
      simp only [readValue, skipBlank_cons (by decide : isBlank '\x7b' = false),
        skipBlank_cons (by decide : isBlank '"' = false)]
      split
      · rename_i heq
        exact absurd (List.cons_eq_cons.mp heq).1 (by decide)
      · simp only [hmembers, Option.bind_eq_bind, Option.bind_some]

/-! ## Normal forms -/

theorem sum_le_length_joined (st : Style) {α : Type*} (f : α → Text) (w : α → ℕ) (l : List α)
    (h : ∀ x ∈ l, w x ≤ (f x).length) :
    (l.map fun x => w x + 1).sum ≤ (joined st (l.map f)).length + 1 := by
  cases l with
  | nil => simp
  | cons x xs =>
    have hxs : (xs.map fun x => w x + 1).sum
        ≤ ((xs.map f).flatMap fun u => ',' :: (st.gap ++ u)).length := by
      have hmem : ∀ y ∈ xs, w y ≤ (f y).length := fun y hy => h y (List.mem_cons_of_mem _ hy)
      clear h
      induction xs with
      | nil => simp
      | cons y ys ih =>
        have hy := hmem y List.mem_cons_self
        have hys := ih fun z hz => hmem z (List.mem_cons_of_mem _ hz)
        simp only [List.map_cons, List.sum_cons, List.flatMap_cons, List.length_append,
          List.length_cons]
        omega
    have hx := h x List.mem_cons_self
    simp only [joined, List.map_cons, List.sum_cons, List.length_append]
    omega

theorem weight_le_length (st : Style) (v : Json Literal) : weight v ≤ (print st v).length := by
  induction v using Json.induction with
  | null => exact Nat.succ_le_succ (Nat.zero_le _)
  | bool b => cases b <;> exact Nat.succ_le_succ (Nat.zero_le _)
  | num l =>
    obtain ⟨c, t, htext, -⟩ := exists_text_eq_cons l
    have hprint : print st (.num l) = c :: t := htext
    rw [hprint]
    exact Nat.succ_le_succ (Nat.zero_le _)
  | str s => exact Nat.succ_le_succ (Nat.zero_le _)
  | arr items ih =>
    have := sum_le_length_joined st (print st) weight items ih
    rw [weight_arr, print_arr]
    simp only [List.length_cons, List.length_append, List.length_nil]
    omega
  | obj members ih =>
    have := sum_le_length_joined st (memberText st) (fun m => weight m.2) members fun m hm => by
      have := ih m hm
      simp only [memberText, List.length_append, List.length_cons]
      omega
    rw [weight_obj, print_obj_eq_joined]
    simp only [List.length_cons, List.length_append, List.length_nil]
    omega

/-- Parsing a printed value gives it back. -/
@[simp] theorem parse_print (st : Style) (v : Json Literal) : parse (print st v) = some v := by
  have h := readsBack st v (print st v).length [] (weight_le_length st v) (by simp [EndsNumber])
  rw [List.append_nil] at h
  rw [parse, h]
  rfl

theorem print_injective (st : Style) : Function.Injective (print st) := by
  intro v w h
  have := congrArg parse h
  rwa [parse_print, parse_print, Option.some_inj] at this

end Argus.JsonText
