import GufoBlob.Text.Basic

/-!
# Tokens of SQL

The lexical rules of SQLite for texts that are made of words, numbers, parameters and a few symbols. A
`Lexer` is any tokenizer that follows these rules, whatever it makes of other texts: a token ends
where the next character cannot belong to it.

* `Lexer.tokens_render` — a text that is put together from tokens with white space between them, where
  it is needed, is cut into these tokens again.
* `plainLexer` — a tokenizer that follows the rules.
-/

namespace GufoBlob.Sql

open Text

/-! ## Tokens -/

/-- White space. -/
def isBlank (c : Char) : Bool := c = ' ' || c = '\t' || c = '\n' || c = '\x0c' || c = '\r'

/-- The first character of a word that needs no quotes, here without those outside ASCII. -/
def isWordStart (c : Char) : Bool := c.isAlpha || c = '_'

/-- The characters that a word can go on with. -/
def isWordChar (c : Char) : Bool := isWordStart c || c.isDigit || c = '$' || 128 ≤ c.toNat

/-- An identifier or a keyword. -/
def plainWord : Str → Bool
  | [] => false
  | c :: cs => isWordStart c && cs.all fun d => isWordStart d || d.isDigit

inductive Symbol where
  | lparen
  | rparen
  | comma
  | dot
  | eq
  | ge
  | lt
  deriving DecidableEq

def Symbol.text : Symbol → Str
  | .lparen => ['(']
  | .rparen => [')']
  | .comma => [',']
  | .dot => ['.']
  | .eq => ['=']
  | .ge => ['>', '=']
  | .lt => ['<']

inductive Token where
  | word (w : Str)
  | number (digits : Str)
  | parameter
  | symbol (s : Symbol)
  deriving DecidableEq

/-- A piece of a text: a token, or white space. -/
inductive Lexeme where
  | blank (s : Str)
  | token (t : Token)

namespace Lexeme

def text : Lexeme → Str
  | .blank s => s
  | .token (.word w) => w
  | .token (.number digits) => digits
  | .token .parameter => ['?']
  | .token (.symbol s) => s.text

/-- What is left of the piece. -/
def tokens : Lexeme → List Token
  | .blank _ => []
  | .token t => [t]

/-- The text is one of the kind that the piece says. -/
def valid : Lexeme → Bool
  | .blank s => !s.isEmpty && s.all isBlank
  | .token (.word w) => plainWord w
  | .token (.number digits) => !digits.isEmpty && digits.all Char.isDigit
  | .token .parameter => true
  | .token (.symbol _) => true

/-- The piece ends before the character `c`: it cannot go on with it. -/
def endsBefore (c : Char) : Lexeme → Bool
  | .blank _ => true
  -- `x'…'` is a literal
  | .token (.word _) => !isWordChar c && c != '\''
  | .token (.number _) => !isWordChar c && c != '.'
  | .token .parameter => !c.isDigit
  | .token (.symbol .dot) => !c.isDigit
  | .token (.symbol .eq) => c != '='
  | .token (.symbol .lt) => c != '=' && c != '<' && c != '>'
  | .token (.symbol _) => true

end Lexeme

/-- A tokenizer that follows the rules. -/
structure Lexer where
  tokens : Str → List Token
  tokens_nil : tokens [] = []
  tokens_append : ∀ (x : Lexeme) (rest : Str), x.valid = true →
    (∀ c ∈ rest.head?, x.endsBefore c = true) → tokens (x.text ++ rest) = x.tokens ++ tokens rest

/-! ## The first characters of words -/

theorem isDigit_of_isWordStart {c : Char} (hc : isWordStart c = true) : c.isDigit = false := by
  delta isWordStart Char.isAlpha Char.isUpper Char.isLower at hc
  simp only [Bool.or_eq_true, Bool.and_eq_true, decide_eq_true_eq, ge_iff_le,
    UInt32.le_iff_toNat_le] at hc
  simp only [Char.isDigit, ge_iff_le, UInt32.le_iff_toNat_le, Bool.and_eq_false_iff,
    decide_eq_false_iff_not]
  rcases hc with hc | rfl
  · have hnine : '9'.val.toNat = 57 := rfl
    have hupper : 'A'.val.toNat = 65 := rfl
    have hlower : 'a'.val.toNat = 97 := rfl
    right
    omega
  · right
    decide

theorem ne_of_isWordStart {c d : Char} (hc : isWordStart c = true) (hd : isWordStart d = false) :
    c ≠ d := by
  rintro rfl
  rw [hc] at hd
  cases hd

/-- No piece tells two words after it apart. -/
theorem Lexeme.endsBefore_of_isWordStart {c d : Char} (x : Lexeme) (hc : isWordStart c = true)
    (hd : isWordStart d = true) : x.endsBefore c = x.endsBefore d := by
  have hdigit := (isDigit_of_isWordStart hc).trans (isDigit_of_isWordStart hd).symm
  have hchar : isWordChar c = isWordChar d := by simp [isWordChar, hc, hd]
  have hne : ∀ e, isWordStart e = false → (c != e) = (d != e) := fun e he => by
    rw [bne_iff_ne.mpr (ne_of_isWordStart hc he), bne_iff_ne.mpr (ne_of_isWordStart hd he)]
  cases x with
  | blank s => rfl
  | token t =>
      cases t with
      | word w => simp only [endsBefore, hchar, hne '\'' (by decide)]
      | number digits => simp only [endsBefore, hchar, hne '.' (by decide)]
      | parameter => simp only [endsBefore, hdigit]
      | symbol s =>
          cases s with
          | dot => simp only [endsBefore, hdigit]
          | eq => simp only [endsBefore, hne '=' (by decide)]
          | lt =>
              simp only [endsBefore, hne '=' (by decide), hne '<' (by decide), hne '>' (by decide)]
          | lparen | rparen | comma | ge => rfl

/-! ## Texts -/

def render (xs : List Lexeme) : Str := xs.flatMap Lexeme.text

/-- Every piece ends before the next one begins. -/
def spelled : List Lexeme → Bool
  | [] => true
  | x :: xs => x.valid && (render xs).head?.all (x.endsBefore ·) && spelled xs

/-- A text is cut into the tokens that it was put together from. -/
theorem Lexer.tokens_render (L : Lexer) {xs : List Lexeme} (h : spelled xs = true) :
    L.tokens (render xs) = xs.flatMap Lexeme.tokens := by
  induction xs with
  | nil => exact L.tokens_nil
  | cons x xs ih =>
      simp only [spelled, Bool.and_eq_true] at h
      obtain ⟨⟨hvalid, hends⟩, hxs⟩ := h
      have happend := L.tokens_append x (render xs) hvalid fun c hc => by
        rw [Option.mem_def.mp hc] at hends
        exact hends
      rw [render, List.flatMap_cons, List.flatMap_cons]
      rw [ih hxs] at happend
      exact happend

/-! ## A tokenizer -/

/-- A run of word characters is a number or a word. -/
def flush (run : Str) : List Token :=
  if run.isEmpty then [] else if run.all Char.isDigit then [.number run] else [.word run]

/-- A token of one character. -/
def single (c : Char) : List Token :=
  if c = '(' then [.symbol .lparen] else if c = ')' then [.symbol .rparen]
  else if c = ',' then [.symbol .comma] else if c = '.' then [.symbol .dot]
  else if c = '=' then [.symbol .eq] else if c = '<' then [.symbol .lt]
  else if c = '?' then [.parameter] else []

/-- The tokens of a text, after a run of word characters. -/
def scan : Str → Str → List Token
  | run, [] => flush run
  | run, '>' :: '=' :: s => flush run ++ .symbol .ge :: scan [] s
  | run, c :: s => if isWordChar c then scan (run ++ [c]) s else flush run ++ single c ++ scan [] s

section Scan

variable {run w rest : Str}

theorem scan_cons {c : Char} (hc : isWordChar c = true) (s : Str) :
    scan run (c :: s) = scan (run ++ [c]) s := by
  rw [scan, if_pos hc]
  rintro s' rfl
  exact absurd hc (by decide)

/-- Word characters are added to the run. -/
theorem scan_append (hw : ∀ c ∈ w, isWordChar c = true) :
    scan run (w ++ rest) = scan (run ++ w) rest := by
  induction w generalizing run with
  | nil => rw [List.nil_append, List.append_nil]
  | cons c w ih =>
      obtain ⟨hc, hw⟩ := List.forall_mem_cons.mp hw
      rw [List.cons_append, scan_cons hc, ih hw, List.append_assoc]
      rfl

/-- The run ends before a character that does not belong to it. -/
theorem scan_of_head (hrest : ∀ c ∈ rest.head?, isWordChar c = false) :
    scan run rest = flush run ++ scan [] rest := by
  unfold scan
  split
  · simp [flush]
  · simp [flush]
  · next c s _ =>
      have hc : isWordChar c = false := hrest c rfl
      simp [hc, flush]

/-- White space is dropped. -/
theorem scan_blank (hw : ∀ c ∈ w, isBlank c = true) : scan [] (w ++ rest) = scan [] rest := by
  induction w with
  | nil => rfl
  | cons c w ih =>
      obtain ⟨hc, hw⟩ := List.forall_mem_cons.mp hw
      have hcases : c = ' ' ∨ c = '\t' ∨ c = '\n' ∨ c = '\x0c' ∨ c = '\r' := by
        simpa [isBlank, or_assoc] using hc
      have hstep : scan [] (c :: (w ++ rest)) = scan [] (w ++ rest) := by
        rcases hcases with rfl | rfl | rfl | rfl | rfl <;> rfl
      exact hstep.trans (ih hw)

end Scan

theorem isWordChar_of_plain {c : Char} (hc : (isWordStart c || c.isDigit) = true) :
    isWordChar c = true := by
  unfold isWordChar
  rw [hc]
  rfl

theorem flush_word {w : Str} (hw : plainWord w = true) :
    (∀ c ∈ w, isWordChar c = true) ∧ flush w = [.word w] := by
  cases w with
  | nil => cases hw
  | cons c cs =>
      simp only [plainWord, Bool.and_eq_true, List.all_eq_true] at hw
      obtain ⟨hc, hcs⟩ := hw
      constructor
      · refine List.forall_mem_cons.mpr ⟨isWordChar_of_plain (by simp [hc]), fun d hd => ?_⟩
        exact isWordChar_of_plain (hcs d hd)
      · simp [flush, isDigit_of_isWordStart hc]

theorem flush_number {digits : Str} (hne : digits ≠ [])
    (hdigits : ∀ c ∈ digits, c.isDigit = true) :
    (∀ c ∈ digits, isWordChar c = true) ∧ flush digits = [.number digits] := by
  constructor
  · exact fun c hc => isWordChar_of_plain (by simp [hdigits c hc])
  · simpa [flush, hne] using hdigits

/-- A run of word characters is scanned as a whole. -/
theorem scan_run {w rest : Str} (hw : ∀ c ∈ w, isWordChar c = true)
    (hrest : ∀ c ∈ rest.head?, isWordChar c = false) :
    scan [] (w ++ rest) = flush w ++ scan [] rest := by
  rw [scan_append hw, List.nil_append, scan_of_head hrest]

theorem scan_lexeme (x : Lexeme) (rest : Str) (hvalid : x.valid = true)
    (hends : ∀ c ∈ rest.head?, x.endsBefore c = true) :
    scan [] (x.text ++ rest) = x.tokens ++ scan [] rest := by
  cases x with
  | blank s =>
      simp only [Lexeme.valid, Bool.and_eq_true, List.all_eq_true] at hvalid
      exact scan_blank hvalid.2
  | token t =>
      cases t with
      | word w =>
          obtain ⟨hchars, hflush⟩ := flush_word hvalid
          show scan [] (w ++ rest) = [.word w] ++ scan [] rest
          rw [← hflush]
          apply scan_run hchars
          intro c hc
          have hend := hends c hc
          simp only [Lexeme.endsBefore, Bool.and_eq_true] at hend
          simpa using hend.1
      | number digits =>
          simp only [Lexeme.valid, Bool.and_eq_true, List.all_eq_true] at hvalid
          obtain ⟨hchars, hflush⟩ := flush_number (by simpa using hvalid.1) hvalid.2
          show scan [] (digits ++ rest) = [.number digits] ++ scan [] rest
          rw [← hflush]
          apply scan_run hchars
          intro c hc
          have hend := hends c hc
          simp only [Lexeme.endsBefore, Bool.and_eq_true] at hend
          simpa using hend.1
      | parameter => rfl
      | symbol s => cases s <;> rfl

/-- A tokenizer that follows the rules. -/
def plainLexer : Lexer where
  tokens := scan []
  tokens_nil := rfl
  tokens_append := scan_lexeme

end GufoBlob.Sql
