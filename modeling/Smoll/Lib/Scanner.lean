/-
# `Smoll.Lib.Scanner` — `java.util.Scanner`

A scanner is what it has not read yet.  It has a next line whenever anything is
left, be it only a line terminator; its tokens are what is between whitespace:

    hasNextLine     any input is left
    next            skips whitespace, and takes a token
    nextDouble      the same, and the token has to be a number

`next` and `nextDouble` throw `NoSuchElementException` when no token is left;
`nextDouble` throws `InputMismatchException`, a subclass of it, at a token that
is not a number.  Which tokens are numbers is a parameter.

`Tokens ts input rest` says that `input` begins with the tokens `ts`, each
behind whitespace, and `rest` after them: `Tokens.next`, `Tokens.nextDouble`.
-/
import Mathlib.Data.List.TakeWhile

namespace Smoll.Scanner

/-- `Character.isWhitespace`: the Unicode separators that may be broken at, and some controls. -/
def isWhitespace (c : Char) : Bool :=
  let n := c.toNat
  (0x9 ≤ n && n ≤ 0xD) || (0x1C ≤ n && n ≤ 0x20) || n == 0x1680 ||
    (0x2000 ≤ n && n ≤ 0x200A && n != 0x2007) || n == 0x2028 || n == 0x2029 || n == 0x205F ||
    n == 0x3000

inductive Exception where
  | noSuchElement
  | inputMismatch
  deriving DecidableEq, Repr

/-- A program that reads. -/
abbrev Scan (α : Type) := StateT (List Char) (Except Exception) α

def hasNextLine (input : List Char) : Bool := !input.isEmpty

/-- The next token and what comes behind it; no token is empty. -/
def token (input : List Char) : List Char × List Char :=
  let input := input.dropWhile isWhitespace
  (input.takeWhile fun c => !isWhitespace c, input.dropWhile fun c => !isWhitespace c)

def next : Scan String := fun input =>
  match token input with
  | ([], _) => .error .noSuchElement
  | (c :: cs, rest) => .ok (String.ofList (c :: cs), rest)

/-- A token that is not a number is not taken. -/
def nextDouble {M : Type} (parseDouble : String → Option M) : Scan M := fun input =>
  match next input with
  | .error e => .error e
  | .ok (text, rest) =>
      match parseDouble text with
      | none => .error .inputMismatch
      | some x => .ok (x, rest)

/-! ## Whitespace and tokens -/

def Blank (cs : List Char) : Prop := ∀ c ∈ cs, isWhitespace c = true

/-- A text that is one token. -/
structure IsToken (text : String) : Prop where
  nonempty : text.toList ≠ []
  free : ∀ c ∈ text.toList, isWhitespace c = false

theorem isToken_iff (text : String) :
    IsToken text ↔ text.toList ≠ [] ∧ text.toList.all (fun c => !isWhitespace c) = true := by
  rw [List.all_eq_true]
  simp only [Bool.not_eq_true']
  constructor
  · intro h
    exact ⟨h.nonempty, h.free⟩
  · rintro ⟨hne, hfree⟩
    exact ⟨hne, hfree⟩

instance instDecidableIsToken (text : String) : Decidable (IsToken text) :=
  decidable_of_iff' _ (isToken_iff text)

/-- A token ends here. -/
def Delimits (rest : List Char) : Prop := ∀ c ∈ rest.head?, isWhitespace c = true

theorem Blank.append {cs ds : List Char} (hcs : Blank cs) (hds : Blank ds) : Blank (cs ++ ds) := by
  intro c hc
  rcases List.mem_append.mp hc with hc | hc
  · exact hcs c hc
  · exact hds c hc

theorem Blank.delimits {cs : List Char} (h : Blank cs) (hne : cs ≠ []) (rest : List Char) :
    Delimits (cs ++ rest) := by
  cases cs with
  | nil => exact absurd rfl hne
  | cons c cs =>
      intro d hd
      have heq : c = d := Option.some.inj hd
      exact heq ▸ h c (List.mem_cons_self ..)

theorem token_append {gap rest : List Char} {text : String} (hgap : Blank gap)
    (htext : IsToken text) (hrest : Delimits rest) :
    token (gap ++ (text.toList ++ rest)) = (text.toList, rest) := by
  have hfree : ∀ c ∈ text.toList, (!isWhitespace c) = true := fun c hc => by
    rw [htext.free c hc]
    rfl
  have hdrop : (gap ++ (text.toList ++ rest)).dropWhile isWhitespace = text.toList ++ rest := by
    rw [List.dropWhile_append_of_pos hgap]
    cases htoken : text.toList with
    | nil => exact absurd htoken htext.nonempty
    | cons c cs =>
        have hc := htext.free c (htoken ▸ List.mem_cons_self ..)
        rw [List.cons_append, List.dropWhile_cons_of_neg (by rw [hc]; exact Bool.false_ne_true)]
  have htake : rest.takeWhile (fun c => !isWhitespace c) = [] ∧
      rest.dropWhile (fun c => !isWhitespace c) = rest := by
    cases rest with
    | nil => exact ⟨rfl, rfl⟩
    | cons c cs =>
        have hc : ¬ (!isWhitespace c) = true := by
          rw [hrest c rfl]
          exact Bool.false_ne_true
        exact ⟨List.takeWhile_cons_of_neg hc, List.dropWhile_cons_of_neg hc⟩
  rw [token, hdrop]
  show ((text.toList ++ rest).takeWhile _, (text.toList ++ rest).dropWhile _) = _
  rw [List.takeWhile_append_of_pos hfree, List.dropWhile_append_of_pos hfree, htake.1, htake.2,
    List.append_nil]

theorem next_append {gap rest : List Char} {text : String} (hgap : Blank gap)
    (htext : IsToken text) (hrest : Delimits rest) :
    next (gap ++ (text.toList ++ rest)) = .ok (text, rest) := by
  rw [next, token_append hgap htext hrest]
  cases htoken : text.toList with
  | nil => exact absurd htoken htext.nonempty
  | cons c cs =>
      show Except.ok (String.ofList (c :: cs), rest) = _
      rw [← htoken, String.ofList_toList]

/-- Where only whitespace is left there is no token. -/
theorem next_blank {input : List Char} (h : Blank input) :
    next input = .error .noSuchElement := by
  have hdrop : input.dropWhile isWhitespace = [] := List.dropWhile_eq_nil_iff.mpr h
  rw [next, token, hdrop]
  rfl

/-! ## Some tokens -/

/-- The input begins with these tokens; the rest begins right behind the last. -/
inductive Tokens : List String → List Char → List Char → Prop where
  | done {rest : List Char} : Tokens [] rest rest
  | more {text : String} {ts : List String} {gap input rest : List Char} (hgap : Blank gap)
      (htext : IsToken text) (hinput : Delimits input) (hts : Tokens ts input rest) :
      Tokens (text :: ts) (gap ++ (text.toList ++ input)) rest

theorem Tokens.next {text : String} {ts : List String} {input rest : List Char}
    (h : Tokens (text :: ts) input rest) :
    ∃ input', Scanner.next input = .ok (text, input') ∧ Tokens ts input' rest := by
  cases h with
  | more hgap htext hinput hts => exact ⟨_, next_append hgap htext hinput, hts⟩

theorem Tokens.nextDouble {M : Type} {parseDouble : String → Option M} {text : String}
    {ts : List String} {input rest : List Char} {x : M} (h : Tokens (text :: ts) input rest)
    (hx : parseDouble text = some x) :
    ∃ input', Scanner.nextDouble parseDouble input = .ok (x, input') ∧ Tokens ts input' rest := by
  rcases h.next with ⟨input', hnext, hts⟩
  refine ⟨input', ?_, hts⟩
  rw [Scanner.nextDouble, hnext]
  show (match parseDouble text with
    | none => Except.error Exception.inputMismatch
    | some x => .ok (x, input')) = _
  rw [hx]

/-- A token at the very beginning. -/
theorem Tokens.first {text : String} {ts : List String} {input rest : List Char}
    (htext : IsToken text) (hinput : Delimits input) (hts : Tokens ts input rest) :
    Tokens (text :: ts) (text.toList ++ input) rest :=
  @Tokens.more text ts [] input rest (fun _ hc => absurd hc List.not_mem_nil) htext hinput hts

/-- Whitespace in front of the tokens is skipped with the rest. -/
theorem Tokens.after {gap : List Char} (hgap : Blank gap) {ts : List String}
    {input rest : List Char} (h : Tokens ts input rest) (hne : ts ≠ []) :
    Tokens ts (gap ++ input) rest := by
  cases h with
  | done => exact absurd rfl hne
  | more hgap' htext hinput hts =>
      rw [← List.append_assoc]
      exact .more (hgap.append hgap') htext hinput hts

end Smoll.Scanner
