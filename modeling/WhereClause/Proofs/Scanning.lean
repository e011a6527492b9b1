import WhereClause.Json.Printer
import WhereClause.Json.Reader
import WhereClause.Proofs.Characters

/-!
# Scanning what was written

The tokens of a value without doubles are found again in its text, whatever follows it
(`Json.all?_write`). A quoted text ends by itself; a word or a numeral needs a character
behind it that cannot continue it, and in what is written a comma or a closing bracket
stands there.
-/
namespace WhereClause

namespace Quoted

/-- A piece of a body stands for a character, by itself or as a code that is no surrogate. -/
inductive Piece.Spells : Piece → Char → Prop
  | char (c : Char) : Spells (.char c) c
  | unit {c : Char} (hcontrol : c.toNat < 0x20) : Spells (.unit c.toNat) c

theorem joinOnto_cons {piece : Piece} {c : Char} (h : piece.Spells c) (pieces : List Piece)
    (done : List Char) : joinOnto (piece :: pieces) done = joinOnto pieces (c :: done) := by
  cases h with
  | char => simp [joinOnto]
  | unit hcontrol =>
    have notHigh : isHighSurrogate c.toNat = false := by
      have below : ¬ 0xD800 ≤ c.toNat := by omega
      simp [isHighSurrogate, below]
    have notLow : isLowSurrogate c.toNat = false := by
      have below : ¬ 0xDC00 ≤ c.toNat := by omega
      simp [isLowSurrogate, below]
    cases pieces <;> simp [joinOnto, notHigh, notLow, Char.ofNat_toNat]

theorem hexValue?_hexDigit {n : Nat} (h : n < 16) : hexValue? (hexDigit n) = some n := by
  have all : ∀ i : Fin 16, hexValue? (hexDigit i.val) = some i.val := by decide
  exact all ⟨n, h⟩

end Quoted

namespace Json

namespace Scan

/-- All tokens of a scan that goes on with a text, those found before included. -/
def all? (s : Scan) (cs : List Char) : Option (List Token) := (s.run cs).bind finish

theorem all?_cons (s : Scan) (c : Char) (cs : List Char) :
    s.all? (c :: cs) = (s.step c).bind (·.all? cs) := by
  unfold all?
  rw [run]
  cases s.step c <;> rfl

theorem all?_cons_of_step {s t : Scan} {c : Char} {cs : List Char} (h : s.step c = some t) :
    s.all? (c :: cs) = t.all? cs := by
  rw [all?_cons, h]
  rfl

variable (found : List Token)

/-! Quoted texts: every character is one piece, and the pieces join to the text. -/

open Quoted (Piece joinOnto)

theorem all?_escape (pieces : List Piece) (c : Char) (cs : List Char) :
    ∃ piece : Piece, piece.Spells c ∧
      all? ⟨.quoted pieces, found⟩ (Quoted.escape c ++ cs)
        = all? ⟨.quoted (piece :: pieces), found⟩ cs := by
  generalize hform : Quoted.escape c = form
  have escaped := Quoted.escaped_escape c
  rw [hform] at escaped
  cases escaped with
  | named letter hletter hname =>
    have notUnit : letter ≠ 'u' := by
      rintro rfl
      revert hletter
      decide
    refine ⟨.char c, .char c, ?_⟩
    have backslash : step ⟨.quoted pieces, found⟩ '\\' = some ⟨.escape pieces, found⟩ := rfl
    have named : step ⟨.escape pieces, found⟩ letter = some ⟨.quoted (.char c :: pieces), found⟩ := by
      simp [step, notUnit, hname]
    rw [List.cons_append, all?_cons_of_step backslash]
    exact all?_cons_of_step named
  | unit hcontrol =>
    have digit {n : Nat} (hn : n < 16) (missing code : Nat) :
        step ⟨.unit pieces (missing + 2) code, found⟩ (Quoted.hexDigit n)
          = some ⟨.unit pieces (missing + 1) (code * 16 + n), found⟩ := by
      simp [step, Quoted.hexValue?_hexDigit hn]
    have last {n : Nat} (hn : n < 16) (code : Nat) :
        step ⟨.unit pieces 1 code, found⟩ (Quoted.hexDigit n)
          = some ⟨.quoted (.unit (code * 16 + n) :: pieces), found⟩ := by
      simp [step, Quoted.hexValue?_hexDigit hn]
    have backslash : step ⟨.quoted pieces, found⟩ '\\' = some ⟨.escape pieces, found⟩ := rfl
    have marked : step ⟨.escape pieces, found⟩ 'u' = some ⟨.unit pieces 4 0, found⟩ := rfl
    refine ⟨.unit c.toNat, .unit hcontrol, ?_⟩
    have zeros : ∀ cs, all? ⟨.unit pieces 4 0, found⟩ ('0' :: '0' :: cs)
        = all? ⟨.unit pieces 2 0, found⟩ cs := fun cs => rfl
    have high := digit (n := c.toNat / 16) (by omega) 0 0
    have low := last (n := c.toNat % 16) (by omega) (0 * 16 + c.toNat / 16)
    have whole : (0 * 16 + c.toNat / 16) * 16 + c.toNat % 16 = c.toNat := by omega
    rw [whole] at low
    simp only [List.cons_append, List.nil_append]
    rw [all?_cons_of_step backslash, all?_cons_of_step marked, zeros, all?_cons_of_step high,
      all?_cons_of_step low]
  | itself notQuote notBackslash notControl =>
    have plain : step ⟨.quoted pieces, found⟩ c = some ⟨.quoted (.char c :: pieces), found⟩ := by
      simp [step, notQuote, notBackslash, notControl]
    exact ⟨.char c, .char c, all?_cons_of_step plain⟩

theorem all?_body (pieces : List Piece) (text rest : List Char) :
    ∃ body : List Piece, (∀ done, joinOnto body done = joinOnto pieces (text ++ done)) ∧
      all? ⟨.quoted pieces, found⟩ (text.flatMap Quoted.escape ++ rest)
        = all? ⟨.quoted body, found⟩ rest := by
  induction text generalizing pieces with
  | nil => exact ⟨pieces, fun _ => rfl, rfl⟩
  | cons c text ih =>
    obtain ⟨piece, spells, hescape⟩ := all?_escape found pieces c
      (text.flatMap Quoted.escape ++ rest)
    obtain ⟨body, joins, hbody⟩ := ih (piece :: pieces)
    refine ⟨body, fun done => ?_, ?_⟩
    · rw [joins, Quoted.joinOnto_cons spells, List.cons_append]
    · rw [List.flatMap_cons, List.append_assoc, hescape, hbody]

theorem all?_quoted (s : String) (rest : List Char) :
    all? ⟨.between, found⟩ (Quoted.write s rest)
      = all? ⟨.between, .text (some s) :: found⟩ rest := by
  obtain ⟨body, joins, hbody⟩ := all?_body found [] s.toList ('"' :: rest)
  have whole : Quoted.join? body = some s := by
    have joined := joins []
    rw [List.append_nil] at joined
    rw [Quoted.join?, joined, joinOnto]
    simp
  have quote : step ⟨.between, found⟩ '"' = some ⟨.quoted [], found⟩ := rfl
  have close : step ⟨.quoted body, found⟩ '"'
      = some ⟨.between, .text (some s) :: found⟩ := by
    rw [← whole]
    rfl
  rw [Quoted.write, all?_cons_of_step quote, hbody, all?_cons_of_step close]

/-! Words and numerals go on to the first character that cannot continue them. -/

/-- Neither a word nor a numeral goes on here. -/
def Ends (rest : List Char) : Prop :=
  ∀ c, rest.head? = some c → continuesNumeral c = false ∧ c.isLower = false

theorem ends_nil : Ends [] := fun _ h => by cases h

theorem ends_cons {c : Char} (cs : List Char) (numeral : continuesNumeral c = false)
    (word : c.isLower = false) : Ends (c :: cs) := by
  rintro _ ⟨⟩
  exact ⟨numeral, word⟩

theorem all?_numeral_end {rest : List Char} (h : Ends rest) (marks : List Char) :
    all? ⟨.numeral marks, found⟩ rest
      = (endNumeral marks found).bind fun found => all? ⟨.between, found⟩ rest := by
  cases rest with
  | nil =>
    show (endNumeral marks found).map List.reverse = _
    rw [Option.map_eq_bind]
    rfl
  | cons c cs =>
    have stop := (h c rfl).1
    have stepped : step ⟨.numeral marks, found⟩ c
        = (endNumeral marks found).bind fun found => stepBetween found c := by
      simp [step, stop]
    rw [all?_cons, stepped, Option.bind_assoc]
    congr 1
    funext found
    rw [all?_cons]
    rfl

theorem all?_numeral {cs rest : List Char} (hcs : ∀ c ∈ cs, continuesNumeral c = true)
    (h : Ends rest) (marks : List Char) :
    all? ⟨.numeral marks, found⟩ (cs ++ rest)
      = (endNumeral (cs.reverse ++ marks) found).bind fun found =>
          all? ⟨.between, found⟩ rest := by
  induction cs generalizing marks with
  | nil => exact all?_numeral_end found h marks
  | cons c cs ih =>
    have goesOn : step ⟨.numeral marks, found⟩ c = some ⟨.numeral (c :: marks), found⟩ := by
      simp [step, hcs c List.mem_cons_self]
    rw [List.cons_append, all?_cons_of_step goesOn,
      ih (fun d hd => hcs d (List.mem_cons_of_mem c hd)), List.reverse_cons, List.append_assoc]
    rfl

theorem all?_word_end (letters : List Char) {rest : List Char} (h : Ends rest) {w : Written}
    (hword : word? letters.reverse = some w) :
    all? ⟨.word letters, found⟩ rest = all? ⟨.between, .scalar w :: found⟩ rest := by
  have ended : endWord letters found = some (.scalar w :: found) := by
    rw [endWord, hword]
    rfl
  cases rest with
  | nil =>
    show (endWord letters found).map List.reverse = _
    rw [ended]
    rfl
  | cons c cs =>
    have stop := (h c rfl).2
    have stepped : step ⟨.word letters, found⟩ c = stepBetween (.scalar w :: found) c := by
      simp [step, stop, ended]
    rw [all?_cons, all?_cons, stepped]
    rfl

end Scan

/-! An integer is read as it is written. -/

namespace Numeral

theorem takeDigits_digitsOf (k : Nat) :
    takeDigits (digitsOf k) = ((digitsOf k).map (·.toNat - 48), []) := by
  have digits : ∀ c ∈ digitsOf k, c.isDigit = true := fun _ => isDigit_of_mem_digitsOf
  have taken : (digitsOf k).takeWhile Char.isDigit = digitsOf k := by
    have before : (digitsOf k ++ []).takeWhile Char.isDigit
        = digitsOf k ++ [].takeWhile Char.isDigit := List.takeWhile_append_of_pos digits
    rwa [List.append_nil, List.takeWhile_nil, List.append_nil] at before
  have dropped : (digitsOf k).dropWhile Char.isDigit = [] := by
    have behind : (digitsOf k ++ []).dropWhile Char.isDigit = [].dropWhile Char.isDigit :=
      List.dropWhile_append_of_pos digits
    rwa [List.append_nil, List.dropWhile_nil] at behind
  rw [takeDigits, taken, dropped]

theorem ofDigits_digitsOf (k : Nat) : ofDigits ((digitsOf k).map (·.toNat - 48)) = k := by
  have sum := Nat.ofDigitChars_ten_toDigits (n := k)
  rw [Nat.ofDigitChars_eq_foldl] at sum
  rw [ofDigits, List.foldl_map]
  simp only [Nat.mul_comm 10] at sum
  exact sum

theorem exists_digitsOf_cons (k : Nat) : ∃ d ds, digitsOf k = d :: ds :=
  List.exists_cons_of_ne_nil Nat.toDigits_ne_nil

theorem digitsOf_of_ten_le {k : Nat} (h : 10 ≤ k) :
    digitsOf k = digitsOf (k / 10) ++ [(k % 10).digitChar] :=
  Nat.toDigits_of_base_le (by decide) h

/-- Only zero is written with a leading zero. -/
theorem head?_digitsOf {k : Nat} (h : 0 < k) {c : Char} (hc : (digitsOf k).head? = some c) :
    c.toNat - 48 ≠ 0 := by
  induction k using Nat.strongRecOn with
  | ind k ih =>
    by_cases small : k < 10
    · have digits : digitsOf k = [k.digitChar] := Nat.toDigits_of_lt_base small
      rw [digits] at hc
      cases hc
      have all : ∀ i : Fin 10, 0 < i.val → i.val.digitChar.toNat - 48 ≠ 0 := by decide
      exact all ⟨k, small⟩ h
    · have smaller : k / 10 < k := by omega
      have positive : 0 < k / 10 := by omega
      obtain ⟨d, ds, leading⟩ := exists_digitsOf_cons (k / 10)
      rw [digitsOf_of_ten_le (by omega), leading] at hc
      exact ih (k / 10) smaller positive (leading ▸ hc)

/-- The numeral of an integer has a sign and a whole part only. -/
theorem ofChars?_intChars (n : Int) :
    ofChars? (intChars n)
      = some ⟨decide (n < 0), (digitsOf n.natAbs).map (·.toNat - 48), none, none⟩ := by
  obtain ⟨d, ds, hdigits⟩ := exists_digitsOf_cons n.natAbs
  have digit : d.isDigit = true := isDigit_of_mem_digitsOf (hdigits ▸ List.mem_cons_self)
  have notMinus : d ≠ '-' := by
    rintro rfl
    revert digit
    decide
  have taken := takeDigits_digitsOf n.natAbs
  -- A zero in front stands alone.
  have leading : ∀ e es, (digitsOf n.natAbs).map (·.toNat - 48) ≠ 0 :: e :: es := by
    intro e es zero
    rcases Nat.eq_zero_or_pos n.natAbs with h | h
    · rw [h] at zero
      cases zero
    · rw [hdigits] at zero
      have head : d.toNat - 48 = 0 := (List.cons.inj zero).1
      exact head?_digitsOf h (by rw [hdigits]; rfl) head
  by_cases negative : n < 0
  · rw [intChars, if_pos negative, ofChars?]
    simp only [taken]
    split <;> simp_all [power?]
  · have unsigned : ∀ rest, digitsOf n.natAbs = '-' :: rest → False := by
      intro rest h
      exact notMinus (List.cons.inj (hdigits ▸ h)).1
    rw [intChars, if_neg negative, ofChars?]
    · simp only [taken]
      split <;> simp_all [power?]
    · exact unsigned

theorem value_intChars {n : Int} (h : inIntRange n = true) :
    value ⟨decide (n < 0), (digitsOf n.natAbs).map (·.toNat - 48), none, none⟩ = .int n := by
  rw [inIntRange, Bool.and_eq_true, decide_eq_true_iff, decide_eq_true_iff] at h
  obtain ⟨low, high⟩ := h
  simp only [value, ofDigits_digitsOf]
  by_cases negative : n < 0
  · have inside : ¬ (n.natAbs = 0 ∨ signedLimit < n.natAbs) := by omega
    have back : -(n.natAbs : Int) = n := by omega
    rw [if_pos (decide_eq_true negative), if_neg inside, back]
  · have inside : n.natAbs < wordLimit := by omega
    have back : (n.natAbs : Int) = n := by omega
    simp [negative, inside, back]

theorem continuesNumeral_of_mem_digitsOf {k : Nat} {c : Char} (h : c ∈ digitsOf k) :
    Scan.continuesNumeral c = true := by
  simp [Scan.continuesNumeral, isDigit_of_mem_digitsOf h]

/-- An integer begins as a numeral does, and goes on as one. -/
theorem exists_intChars_cons (n : Int) :
    ∃ c cs, intChars n = c :: cs ∧ Scan.startsNumeral c = true ∧
      ∀ d ∈ cs, Scan.continuesNumeral d = true := by
  by_cases negative : n < 0
  · exact ⟨'-', digitsOf n.natAbs, if_pos negative, rfl,
      fun _ => continuesNumeral_of_mem_digitsOf⟩
  · obtain ⟨d, ds, hdigits⟩ := exists_digitsOf_cons n.natAbs
    have digit : d.isDigit = true := isDigit_of_mem_digitsOf (hdigits ▸ List.mem_cons_self)
    refine ⟨d, ds, by rw [intChars, if_neg negative, hdigits], ?_, fun e he => ?_⟩
    · simp [Scan.startsNumeral, digit]
    · exact continuesNumeral_of_mem_digitsOf (hdigits ▸ List.mem_cons_of_mem d he)

end Numeral

namespace Scan

variable (found : List Token)

theorem stepBetween_of_startsNumeral {c : Char} (h : startsNumeral c = true) :
    stepBetween found c = some ⟨.numeral [c], found⟩ := by
  have notSpace : isSpace c = false := by
    rw [Bool.eq_false_iff]
    intro space
    simp only [isSpace, Bool.or_eq_true, beq_iff_eq] at space
    rcases space with ((rfl | rfl) | rfl) | rfl <;> revert h <;> decide
  have notQuote : c ≠ '"' := by
    rintro rfl
    revert h
    decide
  simp [stepBetween, notSpace, notQuote, h]

theorem all?_int {n : Int} (hn : inIntRange n = true) {rest : List Char} (h : Ends rest) :
    all? ⟨.between, found⟩ (intChars n ++ rest)
      = all? ⟨.between, .scalar (.number (.int n)) :: found⟩ rest := by
  obtain ⟨c, cs, form, starts, continues⟩ := Numeral.exists_intChars_cons n
  have first : step ⟨.between, found⟩ c = some ⟨.numeral [c], found⟩ :=
    stepBetween_of_startsNumeral found starts
  have marks : (cs.reverse ++ [c]).reverse = intChars n := by simp [form]
  have ended : endNumeral (cs.reverse ++ [c]) found
      = some (.scalar (.number (.int n)) :: found) := by
    rw [endNumeral, marks, Numeral.ofChars?_intChars, Option.map_some, Numeral.value_intChars hn]
  rw [form, List.cons_append, all?_cons_of_step first, all?_numeral found continues h, ended]
  rfl

theorem all?_null {rest : List Char} (h : Ends rest) :
    all? ⟨.between, found⟩ ('n' :: 'u' :: 'l' :: 'l' :: rest)
      = all? ⟨.between, .scalar .null :: found⟩ rest :=
  all?_word_end found ['l', 'l', 'u', 'n'] h rfl

end Scan

/-- Every number is an integer that a text can hold as an integer. -/
inductive Integral : Json → Prop
  | null : Integral .null
  | bool (b : Bool) : Integral (.bool b)
  | int {n : Int} (h : inIntRange n = true) : Integral (.int n)
  | text (s : String) : Integral (.text s)
  | array {items : List Json} (h : ∀ item ∈ items, item.Integral) : Integral (.array items)
  | object {fields : List (String × Json)} (h : ∀ field ∈ fields, field.2.Integral) :
      Integral (.object fields)

theorem Integral.empty : (Json.object []).Integral := .object fun _ h => by cases h

theorem Integral.cons {name : String} {value : Json} {fields : List (String × Json)}
    (hvalue : value.Integral) (h : (Json.object fields).Integral) :
    (Json.object ((name, value) :: fields)).Integral := by
  cases h with
  | object hfields =>
    refine .object fun field hfield => ?_
    rcases List.mem_cons.1 hfield with rfl | hfield
    · exact hvalue
    · exact hfields field hfield

mutual

/-- The tokens of a value, in their order. -/
def tokens : Json → List Token
  | .null => [.scalar .null]
  | .bool b => [.scalar (.bool b)]
  | .int n => [.scalar (.number (.int n))]
  | .float x => [.scalar (.number (.float x))]
  | .text s => [.text (some s)]
  | .array [] => [.leftBracket, .rightBracket]
  | .array (item :: items) => .leftBracket :: (item.tokens ++ tokensOfItems items ++ [.rightBracket])
  | .object [] => [.leftBrace, .rightBrace]
  | .object ((name, value) :: fields) =>
    .leftBrace :: .text (some name) :: .colon ::
      (value.tokens ++ tokensOfFields fields ++ [.rightBrace])

/-- The tokens of further items, each after a comma. -/
def tokensOfItems : List Json → List Token
  | [] => []
  | item :: items => .comma :: (item.tokens ++ tokensOfItems items)

/-- The tokens of further fields, each after a comma. -/
def tokensOfFields : List (String × Json) → List Token
  | [] => []
  | (name, value) :: fields =>
    .comma :: .text (some name) :: .colon :: (value.tokens ++ tokensOfFields fields)

end

open Scan (all? Ends ends_cons all?_cons_of_step all?_quoted)

theorem ends_writeItems (items : List Json) {rest : List Char} (h : Ends rest) :
    Ends (writeItems items rest) := by
  cases items with
  | nil => exact h
  | cons item items => exact ends_cons _ rfl rfl

theorem ends_writeFields (fields : List (String × Json)) {rest : List Char} (h : Ends rest) :
    Ends (writeFields fields rest) := by
  match fields with
  | [] => exact h
  | (name, value) :: fields => exact ends_cons _ rfl rfl

mutual

/-- What is written of a value is scanned as the tokens of the value. -/
theorem all?_write : ∀ {j : Json} (found : List Token) {rest : List Char}, j.Integral → Ends rest →
    all? ⟨.between, found⟩ (j.write rest) = all? ⟨.between, j.tokens.reverse ++ found⟩ rest
  | .null, found, rest, _, ends => Scan.all?_null found ends
  | .bool true, found, rest, _, ends =>
    Scan.all?_word_end found ['e', 'u', 'r', 't'] ends rfl
  | .bool false, found, rest, _, ends =>
    Scan.all?_word_end found ['e', 's', 'l', 'a', 'f'] ends rfl
  | .int n, found, rest, h, ends => by
    cases h with
    | int h => exact Scan.all?_int found h ends
  | .float x, found, rest, h, _ => by cases h
  | .text s, found, rest, _, _ => all?_quoted found s rest
  | .array [], found, rest, _, _ => rfl
  | .array (item :: items), found, rest, h, ends => by
    cases h with
    | array h =>
      have closed : Ends (']' :: rest) := ends_cons rest rfl rfl
      have hitem := all?_write (.leftBracket :: found)
        (h item List.mem_cons_self) (ends_writeItems items closed)
      have hitems := all?_writeItems (item.tokens.reverse ++ .leftBracket :: found)
        (fun other hother => h other (List.mem_cons_of_mem item hother)) closed
      calc all? ⟨.between, found⟩ ((array (item :: items)).write rest)
          = all? ⟨.between, .leftBracket :: found⟩ (item.write (writeItems items (']' :: rest))) :=
            rfl
        _ = all? ⟨.between, (tokensOfItems items).reverse
              ++ (item.tokens.reverse ++ .leftBracket :: found)⟩ (']' :: rest) := by
            rw [hitem, hitems]
        _ = all? ⟨.between, .rightBracket :: ((tokensOfItems items).reverse
              ++ (item.tokens.reverse ++ .leftBracket :: found))⟩ rest := rfl
        _ = all? ⟨.between, (array (item :: items)).tokens.reverse ++ found⟩ rest := by
            simp [tokens]
  | .object [], found, rest, _, _ => rfl
  | .object ((name, value) :: fields), found, rest, h, ends => by
    cases h with
    | object h =>
      have closed : Ends ('\x7d' :: rest) := ends_cons rest rfl rfl
      have hvalue := all?_write (.colon :: .text (some name) :: .leftBrace :: found)
        (h (name, value) List.mem_cons_self) (ends_writeFields fields closed)
      have hfields := all?_writeFields
        (value.tokens.reverse ++ .colon :: .text (some name) :: .leftBrace :: found)
        (fun other hother => h other (List.mem_cons_of_mem _ hother)) closed
      calc all? ⟨.between, found⟩ ((object ((name, value) :: fields)).write rest)
          = all? ⟨.between, .leftBrace :: found⟩ (Quoted.write name
              (':' :: value.write (writeFields fields ('\x7d' :: rest)))) := rfl
        _ = all? ⟨.between, .colon :: .text (some name) :: .leftBrace :: found⟩
              (value.write (writeFields fields ('\x7d' :: rest))) := by
            rw [all?_quoted]
            rfl
        _ = all? ⟨.between, (tokensOfFields fields).reverse ++ (value.tokens.reverse
              ++ .colon :: .text (some name) :: .leftBrace :: found)⟩ ('\x7d' :: rest) := by
            rw [hvalue, hfields]
        _ = all? ⟨.between, .rightBrace :: ((tokensOfFields fields).reverse
              ++ (value.tokens.reverse
                ++ .colon :: .text (some name) :: .leftBrace :: found))⟩ rest := rfl
        _ = all? ⟨.between, (object ((name, value) :: fields)).tokens.reverse ++ found⟩ rest := by
            simp [tokens]

theorem all?_writeItems : ∀ {items : List Json} (found : List Token) {rest : List Char},
    (∀ item ∈ items, item.Integral) → Ends rest →
    all? ⟨.between, found⟩ (writeItems items rest)
      = all? ⟨.between, (tokensOfItems items).reverse ++ found⟩ rest
  | [], found, rest, _, _ => rfl
  | item :: items, found, rest, h, ends => by
    have hitem := all?_write (.comma :: found)
      (h item List.mem_cons_self) (ends_writeItems items ends)
    have hitems := all?_writeItems (item.tokens.reverse ++ .comma :: found)
      (fun other hother => h other (List.mem_cons_of_mem item hother)) ends
    calc all? ⟨.between, found⟩ (writeItems (item :: items) rest)
        = all? ⟨.between, .comma :: found⟩ (item.write (writeItems items rest)) := rfl
      _ = all? ⟨.between, (tokensOfItems items).reverse
            ++ (item.tokens.reverse ++ .comma :: found)⟩ rest := by rw [hitem, hitems]
      _ = all? ⟨.between, (tokensOfItems (item :: items)).reverse ++ found⟩ rest := by
          simp [tokensOfItems]

theorem all?_writeFields : ∀ {fields : List (String × Json)} (found : List Token)
    {rest : List Char}, (∀ field ∈ fields, field.2.Integral) → Ends rest →
    all? ⟨.between, found⟩ (writeFields fields rest)
      = all? ⟨.between, (tokensOfFields fields).reverse ++ found⟩ rest
  | [], found, rest, _, _ => rfl
  | (name, value) :: fields, found, rest, h, ends => by
    have hvalue := all?_write (.colon :: .text (some name) :: .comma :: found)
      (h (name, value) List.mem_cons_self) (ends_writeFields fields ends)
    have hfields := all?_writeFields
      (value.tokens.reverse ++ .colon :: .text (some name) :: .comma :: found)
      (fun other hother => h other (List.mem_cons_of_mem _ hother)) ends
    calc all? ⟨.between, found⟩ (writeFields ((name, value) :: fields) rest)
        = all? ⟨.between, .comma :: found⟩
            (Quoted.write name (':' :: value.write (writeFields fields rest))) := rfl
      _ = all? ⟨.between, .colon :: .text (some name) :: .comma :: found⟩
            (value.write (writeFields fields rest)) := by
          rw [all?_quoted]
          rfl
      _ = all? ⟨.between, (tokensOfFields fields).reverse
            ++ (value.tokens.reverse ++ .colon :: .text (some name) :: .comma :: found)⟩ rest := by
          rw [hvalue, hfields]
      _ = all? ⟨.between, (tokensOfFields ((name, value) :: fields)).reverse ++ found⟩ rest := by
          simp [tokensOfFields]

end

/-- The text of a value has the tokens of the value. -/
theorem tokens?_render {j : Json} (h : j.Integral) : tokens? j.render.toList = some j.tokens := by
  have scanned := all?_write [] h Scan.ends_nil
  rw [render, String.toList_ofList]
  calc tokens? (j.write []) = all? ⟨.between, j.tokens.reverse ++ []⟩ [] := scanned
    _ = some (j.tokens.reverse ++ []).reverse := rfl
    _ = some j.tokens := by simp

end Json
end WhereClause
