import Mathlib.Data.List.TakeWhile

/-! # Words and quoted words

A text is read from left to right: words are separated by blanks, and a word that starts with a
quote goes to the next quote that does not stand behind an escape character.
-/

namespace PandoraRobot.Tokens

variable {α : Type} [DecidableEq α]

/-- What has been read of the word at hand.  `escaped` is whether the last character is the escape
    character. -/
inductive Reading (α : Type) where
  | blanks
  | word (seen : List α)
  | quoted (seen : List α) (escaped : Bool)

/-- The words of a text, from such a place on. -/
def tokensFrom (blank : α → Bool) (quote escape : α) : Reading α → List α → List (List α)
  | .blanks, [] => []
  | .blanks, x :: xs =>
    if blank x then tokensFrom blank quote escape .blanks xs
    else if x = quote then tokensFrom blank quote escape (.quoted [] false) xs
    else tokensFrom blank quote escape (.word [x]) xs
  | .word seen, [] => [seen]
  | .word seen, x :: xs =>
    if blank x then seen :: tokensFrom blank quote escape .blanks xs
    else tokensFrom blank quote escape (.word (seen ++ [x])) xs
  | .quoted seen _, [] => [seen]
  | .quoted seen escaped, x :: xs =>
    if x = quote ∧ ¬ escaped then seen :: tokensFrom blank quote escape .blanks xs
    else tokensFrom blank quote escape (.quoted (seen ++ [x]) (x = escape)) xs

/-- The words of a text. -/
def tokens (blank : α → Bool) (quote escape : α) (text : List α) : List (List α) :=
  tokensFrom blank quote escape .blanks text

/-- The characters before the quote that ends a word. -/
def quotedWord (quote escape : α) : Bool → List α → List α
  | _, [] => []
  | escaped, x :: xs =>
    if x = quote ∧ ¬ escaped then [] else x :: quotedWord quote escape (x = escape) xs

variable {blank : α → Bool} {quote escape x : α} {seen text : List α} {escaped : Bool}

theorem quotedWord_prefix : quotedWord quote escape escaped text <+: text := by
  induction text generalizing escaped with
  | nil => exact List.prefix_rfl
  | cons x text ih =>
    rw [quotedWord]
    split
    next => exact List.nil_prefix
    next => exact List.cons_prefix_cons.mpr ⟨rfl, ih⟩

/-- Behind the word stands the quote, if it is not the rest of the text. -/
theorem drop_quotedWord (h : (quotedWord quote escape escaped text).length < text.length) :
    text.drop (quotedWord quote escape escaped text).length =
      quote :: text.drop ((quotedWord quote escape escaped text).length + 1) := by
  induction text generalizing escaped with
  | nil => cases h
  | cons x text ih =>
    rw [quotedWord] at h ⊢
    split
    next hend => simp [hend.1]
    next hend =>
      rw [if_neg hend] at h
      exact ih (Nat.lt_of_succ_lt_succ h)

/-- An escape character changes nothing if no quote stands behind it. -/
theorem quotedWord_escaped (h : text.head? ≠ some quote) :
    quotedWord quote escape true text = quotedWord quote escape false text := by
  cases text with
  | nil => rfl
  | cons x text =>
    have hx : x ≠ quote := fun hx => h (by rw [hx, List.head?_cons])
    simp [quotedWord, hx]

theorem tokens_dropWhile : tokens blank quote escape text =
    tokens blank quote escape (text.dropWhile blank) := by
  induction text with
  | nil => rfl
  | cons x text ih =>
    by_cases hx : blank x
    · rw [List.dropWhile_cons_of_pos hx, ← ih]
      simp [tokens, tokensFrom, hx]
    · rw [List.dropWhile_cons_of_neg hx]

theorem tokensFrom_word : tokensFrom blank quote escape (.word seen) text =
    (seen ++ text.takeWhile (fun x => !blank x)) ::
      tokens blank quote escape (text.dropWhile (fun x => !blank x)) := by
  induction text generalizing seen with
  | nil => simp [tokensFrom, tokens]
  | cons x text ih =>
    by_cases hx : blank x
    · simp [tokensFrom, tokens, hx]
    · simp [tokensFrom, hx, ih]

theorem tokensFrom_quoted : tokensFrom blank quote escape (.quoted seen escaped) text =
    (seen ++ quotedWord quote escape escaped text) ::
      tokens blank quote escape
        (text.drop ((quotedWord quote escape escaped text).length + 1)) := by
  induction text generalizing seen escaped with
  | nil => simp [tokensFrom, tokens, quotedWord]
  | cons x text ih =>
    by_cases hx : x = quote ∧ ¬ escaped
    · simp only [tokensFrom, quotedWord, if_pos hx]
      simp [tokens]
    · simp only [tokensFrom, quotedWord, if_neg hx, ih]
      simp

theorem tokens_cons_quote (hquote : blank quote = false) :
    tokens blank quote escape (quote :: text) =
      quotedWord quote escape false text ::
        tokens blank quote escape
          (text.drop ((quotedWord quote escape false text).length + 1)) := by
  simp [tokens, tokensFrom, hquote, tokensFrom_quoted]

/-- A text that starts with a word. -/
theorem tokens_cons_word (hblank : blank x = false) (hquote : x ≠ quote) :
    tokens blank quote escape (x :: text) =
      (x :: text).takeWhile (fun x => !blank x) ::
        tokens blank quote escape ((x :: text).dropWhile (fun x => !blank x)) := by
  simp [tokens, tokensFrom, hblank, hquote, tokensFrom_word]

end PandoraRobot.Tokens
