import Mathlib.Data.List.TakeWhile
import Mathlib.Data.Nat.Digits.Defs
import SchemaTypings.Json.Printer
import SchemaTypings.Json.Token

/-!
# Reading printed tokens

What the printer writes for a word, an integer or a quoted text is read as one token.  `Lexes`
says which tokens a text is read as whatever was read before; it is shown from the end of a text to
its start, one token at a time.
-/

namespace SchemaTypings.Json

open SchemaTypings.Decimal

/-! ### Integers -/

namespace Number

theorem isDigit_of_mem_natText {n : Nat} {c : Char} (h : c ∈ natText n) : c.isDigit = true :=
  Nat.isDigit_of_mem_toDigits (by decide) (by decide) h

/-- The digits of a number denote it. -/
theorem digitsValue_natText (n : Nat) : digitsValue (natText n) = n :=
  Nat.ofDigitChars_toDigits (by decide) (by decide)

/-- The digits of a positive number do not start with zero. -/
theorem head?_natText {n : Nat} (h : 0 < n) : (natText n).head? ≠ some '0' := by
  induction n using Nat.strong_induction_on with
  | _ n ih =>
    unfold natText
    by_cases hn : n < 10
    · rw [Nat.toDigits_of_lt_base hn]
      intro hzero
      have hvalue := congrArg Char.toNat (Option.some.inj hzero)
      rw [Nat.toNat_digitChar_of_lt_ten hn] at hvalue
      have hzero : '0'.toNat = 48 := rfl
      omega
    · rw [Nat.toDigits_of_base_le (by decide) (by omega)]
      obtain ⟨first, rest, hdigits⟩ := List.exists_cons_of_ne_nil
        (Nat.toDigits_ne_nil (b := 10) (n := n / 10))
      have hfirst := ih (n / 10) (by omega) (by omega)
      unfold natText at hfirst
      rw [hdigits] at hfirst ⊢
      exact hfirst

/-- The digits of a number may stand before the point. -/
theorem isWhole_natText (n : Nat) : isWhole (natText n) = true := by
  rcases Nat.eq_zero_or_pos n with rfl | hpos
  · rfl
  · have hfirst := head?_natText hpos
    have hne : natText n ≠ [] := Nat.toDigits_ne_nil
    cases hdigits : natText n with
    | nil => exact absurd hdigits hne
    | cons first rest =>
      rw [hdigits] at hfirst
      cases rest with
      | nil => rfl
      | cons second more =>
        rw [isWhole]
        · simpa using hfirst
        · simp

theorem ofUnsigned?_natText (negative : Bool) (n : Nat) :
    ofUnsigned? negative (natText n) = ofWhole? negative (natText n) := by
  have hall : ∀ c ∈ natText n, c.isDigit = true := fun c => isDigit_of_mem_natText
  unfold ofUnsigned?
  rw [List.takeWhile_eq_self_iff.2 hall, List.dropWhile_eq_nil_iff.2 hall,
    if_pos (isWhole_natText n)]

/-- An integer that fits 64 bits is read from its digits. -/
theorem ofLexeme?_intText {i : Int} (hlow : -2 ^ 63 ≤ i) (hhigh : i < 2 ^ 64) :
    ofLexeme? (intText i) = some (integer i) := by
  cases i with
  | ofNat n =>
    have hn : n < twoTo 64 := by
      have htwo : twoTo 64 = 2 ^ 64 := rfl
      rw [Int.ofNat_eq_natCast] at hhigh
      omega
    have hsign : ∀ body, natText n ≠ '-' :: body := by
      intro body hbody
      have hdigit := isDigit_of_mem_natText (n := n) (c := '-') (by rw [hbody]; simp)
      exact absurd hdigit (by decide)
    rw [intText, ofLexeme?]
    · rw [ofUnsigned?_natText, ofWhole?, digitsValue_natText, if_pos ⟨rfl, hn⟩]
      rfl
    · exact hsign
  | negSucc n =>
    have hn : n + 1 ≤ twoTo 63 := by
      have htwo : twoTo 63 = 2 ^ 63 := rfl
      omega
    rw [intText, ofLexeme?, ofUnsigned?_natText, ofWhole?, digitsValue_natText,
      if_neg (by simp), if_pos ⟨rfl, Nat.succ_pos n, hn⟩]
    rfl

end Number

/-! ### Lexing from the end -/

/-- A text is read as tokens, whatever was read before. -/
def Lexes (cs : List Char) (tokens : List Token) : Prop := ∀ done,
  ((⟨done, .between⟩ : Lexer).run cs).bind Lexer.finish = some (done.reverse ++ tokens)

/-- A word may stand before a text: nothing follows or a character that ends the word. -/
def FollowsWord (cs : List Char) : Prop := ∀ c ∈ cs.head?, Lexer.endsBare c = true

/-- The tokens of a text are those that it is read as. -/
theorem Lexes.tokens? {cs : List Char} {tokens : List Token} (h : Lexes cs tokens) :
    tokens? (String.ofList cs) = some tokens := by
  rw [Json.tokens?, String.toList_ofList]
  exact h []

theorem Lexes.nil : Lexes [] [] := fun done => by simp [Lexer.finish]

/-- A blank is no token. -/
theorem Lexes.space {c : Char} {cs : List Char} {tokens : List Token}
    (hc : Token.isSpace c = true) (h : Lexes cs tokens) : Lexes (c :: cs) tokens := by
  intro done
  rw [Lexer.run_cons, Lexer.step]
  show ((Lexer.stepBetween done c).run cs).bind Lexer.finish = _
  rw [Lexer.stepBetween, if_pos hc]
  exact h done

theorem Lexes.spaces {blanks cs : List Char} {tokens : List Token}
    (hblanks : ∀ c ∈ blanks, Token.isSpace c = true) (h : Lexes cs tokens) :
    Lexes (blanks ++ cs) tokens := by
  induction blanks with
  | nil => exact h
  | cons c rest ih =>
    rw [List.forall_mem_cons] at hblanks
    exact .space hblanks.1 (ih hblanks.2)

/-- A mark is a token of its own. -/
theorem Lexes.mark {c : Char} {token : Token} {cs : List Char} {tokens : List Token}
    (hc : Token.mark? c = some token) (hspace : Token.isSpace c = false) (h : Lexes cs tokens) :
    Lexes (c :: cs) (token :: tokens) := by
  intro done
  rw [Lexer.run_cons, Lexer.step]
  show ((Lexer.stepBetween done c).run cs).bind Lexer.finish = _
  rw [Lexer.stepBetween, if_neg (by simp [hspace]), hc]
  exact (h (token :: done)).trans (by simp)

/-! ### Words -/

theorem stepBetween_word {c : Char} (hc : Lexer.endsBare c = false) (done : List Token) :
    Lexer.stepBetween done c = ⟨done, .bare [c]⟩ := by
  simp only [Lexer.endsBare, Bool.or_eq_false_iff, Option.isSome_eq_false_iff,
    Option.isNone_iff_eq_none, beq_eq_false_iff_ne] at hc
  obtain ⟨⟨hspace, hmark⟩, hquote⟩ := hc
  rw [Lexer.stepBetween, if_neg (by simp [hspace]), hmark]
  exact if_neg hquote

theorem run_word {word : List Char} (hword : ∀ c ∈ word, Lexer.endsBare c = false)
    (done : List Token) (front : List Char) :
    (⟨done, .bare front⟩ : Lexer).run word = some ⟨done, .bare (word.reverse ++ front)⟩ := by
  induction word generalizing front with
  | nil => rfl
  | cons c rest ih =>
    rw [List.forall_mem_cons] at hword
    rw [Lexer.run_cons, Lexer.step]
    simp only [hword.1, Bool.false_eq_true, if_false, Option.bind_some]
    rw [ih hword.2, List.reverse_cons, List.append_assoc]
    rfl

/-- A word or a number is one token. -/
theorem Lexes.word {word cs : List Char} {token : Token} {tokens : List Token}
    (htoken : Token.ofBare? word = some token) (hne : word ≠ [])
    (hword : ∀ c ∈ word, Lexer.endsBare c = false) (hcs : FollowsWord cs) (h : Lexes cs tokens) :
    Lexes (word ++ cs) (token :: tokens) := by
  intro done
  obtain ⟨first, rest, rfl⟩ := List.exists_cons_of_ne_nil hne
  rw [List.forall_mem_cons] at hword
  have hrun : (⟨done, .between⟩ : Lexer).run (first :: rest) =
      some ⟨done, .bare (first :: rest).reverse⟩ := by
    rw [Lexer.run_cons, Lexer.step]
    show (Lexer.stepBetween done first).run rest = _
    rw [stepBetween_word hword.1, run_word hword.2, List.reverse_cons]
  rw [Lexer.run_append, hrun, Option.bind_some]
  -- the word ends with the text or at a character that is then read after its token
  have hafter := h (token :: done)
  rw [List.reverse_cons, List.append_assoc] at hafter
  cases cs with
  | nil =>
    obtain rfl : tokens = [] := by simpa [Lexer.finish] using hafter
    show (Token.ofBare? (first :: rest).reverse.reverse).map _ = _
    rw [List.reverse_reverse, htoken, Option.map_some, List.reverse_cons]
  | cons c more =>
    have hc : Lexer.endsBare c = true := hcs c rfl
    rw [Lexer.run_cons, Lexer.step] at hafter ⊢
    simp only [hc, if_true, List.reverse_reverse, htoken, Option.map_some] at hafter ⊢
    exact hafter

/-! ### Quoted texts -/

theorem hexValue?_hexDigit : ∀ n < 16, hexValue? (hexDigit n) = some n := by decide

/-- A control character is read from its code. -/
theorem run_control (done : List Token) (front : List Char) {c : Char} (hc : c.toNat < 0x20) :
    (⟨done, .text front⟩ : Lexer).run
        ['\\', 'u', '0', '0', hexDigit (c.toNat / 16), hexDigit (c.toNat % 16)] =
      some ⟨done, .text (c :: front)⟩ := by
  have hzero : hexValue? '0' = some 0 := by decide
  have hhigh := hexValue?_hexDigit (c.toNat / 16) (by omega)
  have hlow := hexValue?_hexDigit (c.toNat % 16) (by omega)
  have hvalue : 16 * (c.toNat / 16) + c.toNat % 16 = c.toNat := by omega
  have hplain : Lexer.afterUnit front none c.toNat = some (.text (c :: front)) := by
    have hsurrogate : isHighSurrogate c.toNat = false ∧ isLowSurrogate c.toNat = false := by
      simp [isHighSurrogate, isLowSurrogate]
      omega
    rw [Lexer.afterUnit, hsurrogate.1, hsurrogate.2, Char.ofNat_toNat]
    rfl
  simp [Lexer.step, hzero, hhigh, hlow, hvalue, hplain]

/-- An escaped character is read as that character. -/
theorem run_escape (done : List Token) (front : List Char) (c : Char) :
    (⟨done, .text front⟩ : Lexer).run (escape c) = some ⟨done, .text (c :: front)⟩ := by
  by_cases hletter : c ∈ ['"', '\\', '\x08', '\x0c', '\n', '\r', '\t']
  · simp only [List.mem_cons, List.not_mem_nil, or_false] at hletter
    rcases hletter with rfl | rfl | rfl | rfl | rfl | rfl | rfl <;> rfl
  · simp only [List.mem_cons, not_or] at hletter
    obtain ⟨hquote, hslash, hb, hf, hn, hr, ht, -⟩ := hletter
    rw [escape, if_neg hquote, if_neg hslash, if_neg hb, if_neg hf, if_neg hn, if_neg hr, if_neg ht]
    by_cases hcontrol : c.toNat < 0x20
    · rw [if_pos hcontrol]
      exact run_control done front hcontrol
    · rw [if_neg hcontrol, Lexer.run_cons, Lexer.step]
      simp only [if_neg hquote, if_neg hslash, if_neg hcontrol]
      rfl

theorem run_flatMap_escape (done : List Token) (front cs : List Char) :
    (⟨done, .text front⟩ : Lexer).run (cs.flatMap escape) =
      some ⟨done, .text (cs.reverse ++ front)⟩ := by
  induction cs generalizing front with
  | nil => rfl
  | cons c rest ih =>
    rw [List.flatMap_cons, Lexer.run_append, run_escape, Option.bind_some, ih, List.reverse_cons,
      List.append_assoc]
    rfl

/-- A quoted text is one token. -/
theorem Lexes.quote {cs : List Char} {tokens : List Token} (s : String) (h : Lexes cs tokens) :
    Lexes (quote s ++ cs) (.text s :: tokens) := by
  intro done
  have hopen : (⟨done, .between⟩ : Lexer).step '"' = some ⟨done, .text []⟩ := rfl
  have hclose : (⟨done, .text s.toList.reverse⟩ : Lexer).step '"' =
      some ⟨.text s :: done, .between⟩ := by
    simp [Lexer.step]
  rw [Json.quote, List.cons_append, Lexer.run_cons, hopen, Option.bind_some, List.append_assoc,
    Lexer.run_append, run_flatMap_escape, Option.bind_some, List.append_nil, List.singleton_append,
    Lexer.run_cons, hclose, Option.bind_some, h, List.reverse_cons, List.append_assoc]
  rfl

/-! ### Printed words -/

/-- A word ends only before a blank, a mark or a quote. -/
theorem mem_of_endsBare {c : Char} (h : Lexer.endsBare c = true) :
    c ∈ [' ', '\t', '\n', '\r', '[', ']', '\x7b', '\x7d', ',', ':', '"'] := by
  have hmark : (Token.mark? c).isSome = true → c ∈ ['[', ']', '\x7b', '\x7d', ',', ':'] := by
    unfold Token.mark?
    split <;> simp
  simp only [Lexer.endsBare, Token.isSpace, Bool.or_eq_true, beq_iff_eq] at h
  rcases h with ((((rfl | rfl) | rfl) | rfl) | hsome) | rfl
  any_goals decide
  exact List.mem_append_left ['"'] (List.mem_append_right [' ', '\t', '\n', '\r'] (hmark hsome))

namespace Number

/-- An integer is written in digits, possibly after a sign. -/
theorem mem_intText {i : Int} {c : Char} (h : c ∈ intText i) : c = '-' ∨ c.isDigit = true := by
  cases i with
  | ofNat n => exact Or.inr (isDigit_of_mem_natText h)
  | negSucc n =>
    rcases List.mem_cons.1 h with rfl | hdigit
    · exact Or.inl rfl
    · exact Or.inr (isDigit_of_mem_natText hdigit)

theorem intText_ne_nil (i : Int) : intText i ≠ [] := by
  cases i with
  | ofNat n => exact Nat.toDigits_ne_nil
  | negSucc n => exact List.cons_ne_nil _ _

theorem endsBare_of_mem_intText {i : Int} {c : Char} (h : c ∈ intText i) :
    Lexer.endsBare c = false := by
  refine Bool.eq_false_iff.2 fun hends => ?_
  have hmem := mem_of_endsBare hends
  simp only [List.mem_cons, List.not_mem_nil, or_false] at hmem
  rcases mem_intText h with rfl | hdigit
  · revert hmem
    decide
  · rcases hmem with rfl | rfl | rfl | rfl | rfl | rfl | rfl | rfl | rfl | rfl | rfl <;>
      exact absurd hdigit (by decide)

end Number

/-- An integer that fits 64 bits is a token. -/
theorem ofBare?_intText {i : Int} (hlow : -2 ^ 63 ≤ i) (hhigh : i < 2 ^ 64) :
    Token.ofBare? (Number.intText i) = some (.number (.integer i)) := by
  have hword : ∀ c, c ≠ '-' → c.isDigit = false → c ∉ Number.intText i := by
    intro c hsign hdigit hmem
    rcases Number.mem_intText hmem with hminus | hdigit'
    · exact hsign hminus
    · rw [hdigit] at hdigit'
      cases hdigit'
  rw [Token.ofBare?, Number.ofLexeme?_intText hlow hhigh]
  · rfl
  · exact fun h => hword 'n' (by decide) (by decide) (by simp [h])
  · exact fun h => hword 't' (by decide) (by decide) (by simp [h])
  · exact fun h => hword 'f' (by decide) (by decide) (by simp [h])

/-- A printed integer that fits 64 bits is one token. -/
theorem Lexes.integer {cs : List Char} {tokens : List Token} {i : Int} (hlow : -2 ^ 63 ≤ i)
    (hhigh : i < 2 ^ 64) (hcs : FollowsWord cs) (h : Lexes cs tokens) :
    Lexes (Number.intText i ++ cs) (.number (.integer i) :: tokens) :=
  .word (ofBare?_intText hlow hhigh) (Number.intText_ne_nil i)
    (fun _ => Number.endsBare_of_mem_intText) hcs h

/-- A printed truth value is one token. -/
theorem Lexes.bool {cs : List Char} {tokens : List Token} (b : Bool) (hcs : FollowsWord cs)
    (h : Lexes cs tokens) : Lexes (boolText b ++ cs) (.bool b :: tokens) := by
  refine .word ?_ ?_ ?_ hcs h
  · cases b <;> rfl
  · cases b <;> simp [boolText]
  · cases b <;> simp [boolText, Lexer.endsBare, Token.isSpace, Token.mark?]

/-- The printed `null` is one token. -/
theorem Lexes.null {cs : List Char} {tokens : List Token} (hcs : FollowsWord cs)
    (h : Lexes cs tokens) : Lexes ("null".toList ++ cs) (.null :: tokens) :=
  .word rfl (by simp) (by simp [Lexer.endsBare, Token.isSpace, Token.mark?]) hcs h

end SchemaTypings.Json
