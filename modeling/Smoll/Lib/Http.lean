/-
# `Smoll.Lib.Http` — reading one message off a connection

A text is a list of characters, one for each byte. `parse` reads an HTTP/1.1
request off the front of what a connection carries:

    method target HTTP/major.minor      the request line
    name: value                         any number of fields
                                        an empty line
    body                                as many bytes as Content-Length says

and gives the message with what is left for the next one. A text laid out so
is read back line by line (`parse_layout`), where each line holds no CR LF.
-/
import Mathlib.Data.List.DropRight
import Smoll.Lib.Search

namespace Smoll.Http

open Smoll.Search

abbrev Text := List Char

def crlf : Text := ['\r', '\n']

structure HeaderField where
  name : Text
  value : Text
deriving DecidableEq

structure Message where
  method : Text
  target : Text
  major : Nat
  minor : Nat
  fields : List HeaderField
  body : Text
deriving DecidableEq

/-! ## The reader -/

def readLine : Text → Option (Text × Text) :=
  find (·.dropPrefix? crlf)

def cutAt (c : Char) : Text → Option (Text × Text) :=
  find (·.dropPrefix? [c])

def number (s : Text) : Option Nat :=
  if s ≠ [] ∧ s.all Char.isDigit then some (Nat.ofDigitChars 10 s 0) else none

def httpName : Text := ['H', 'T', 'T', 'P', '/']

def readVersion (s : Text) : Option (Nat × Nat) := do
  let (major, minor) ← cutAt '.' (← s.dropPrefix? httpName)
  return (← number major, ← number minor)

def readRequestLine (line : Text) : Option (Text × Text × Nat × Nat) := do
  let (method, line) ← cutAt ' ' line
  let (target, line) ← cutAt ' ' line
  return (method, target, ← readVersion line)

def isBlank (c : Char) : Bool :=
  c == ' ' || c == '\t'

/-- A value stands between optional blanks. -/
def trim (s : Text) : Text :=
  (s.dropWhile isBlank).rdropWhile isBlank

def readField (line : Text) : Option HeaderField := do
  let (name, value) ← cutAt ':' line
  return ⟨name, trim value⟩

def readFields : Nat → Text → Option (List HeaderField × Text)
  | 0, _ => none
  | fuel + 1, s => do
      let (line, s) ← readLine s
      if line = [] then
        return ([], s)
      else
        let field ← readField line
        let (fields, s) ← readFields fuel s
        return (field :: fields, s)

def contentLengthName : Text := "content-length".toList

/-- Names of fields are compared without regard to case. -/
def isContentLength (name : Text) : Bool :=
  name.map Char.toLower == contentLengthName

def contentLength (fields : List HeaderField) : Option Text :=
  (fields.find? fun field => isContentLength field.name).map HeaderField.value

def readBody (fields : List HeaderField) (s : Text) : Option (Text × Text) :=
  match contentLength fields with
  | none => some ([], s)
  | some value => do
      let n ← number value
      if n ≤ s.length then
        return s.splitAt n
      else
        none

def parse (s : Text) : Option (Message × Text) := do
  let (line, s) ← readLine s
  let (method, target, major, minor) ← readRequestLine line
  let (fields, s) ← readFields (s.length + 1) s
  let (body, s) ← readBody fields s
  return (⟨method, target, major, minor, fields, body⟩, s)

/-! ## Lines -/

theorem readLine_append {line : Text} (hline : ¬ crlf <:+: line) (s : Text) :
    readLine (line ++ (crlf ++ s)) = some (line, s) := by
  refine find_word (w := crlf) ?_
  rintro y ⟨u, rfl⟩ hne ⟨v, hv⟩
  apply hline
  cases y with
  | nil => exact absurd rfl hne
  | cons c y =>
      cases y with
      | nil =>
          have hcr : '\n' = '\r' := by
            have htail := (List.cons.inj hv).2
            exact (List.cons.inj htail).1
          exact absurd hcr (by decide)
      | cons d y =>
          rcases List.cons.inj hv with ⟨rfl, hv'⟩
          rcases List.cons.inj hv' with ⟨rfl, _⟩
          exact ⟨u, y, by rw [List.append_assoc]; rfl⟩

theorem not_infix_of_readLine {s line rest : Text} (h : readLine s = some (line, rest)) :
    ¬ crlf <:+: line :=
  (of_find_word (w := crlf) h).2 (List.cons_ne_nil _ _)

theorem cutAt_append {c : Char} {a : Text} (ha : c ∉ a) (s : Text) :
    cutAt c (a ++ c :: s) = some (a, s) :=
  find_letter ha s

theorem eq_of_cutAt {c : Char} {l a s : Text} (h : cutAt c l = some (a, s)) :
    l = a ++ c :: s ∧ c ∉ a := by
  rcases of_find_word (w := [c]) h with ⟨hl, ha⟩
  refine ⟨hl, ?_⟩
  intro hc
  exact ha (List.cons_ne_nil _ _) ((List.append_of_mem hc).elim fun u ⟨v, hv⟩ => ⟨u, v, by rw [hv]; simp⟩)

/-- A word without the letter `x` lies on one side of it. -/
theorem infix_of_append_cons {w a b : Text} {x : Char} (hx : x ∉ w) (h : w <:+: a ++ x :: b) :
    w <:+: a ∨ w <:+: b := by
  rcases h with ⟨u, v, huv⟩
  rcases List.append_eq_append_iff.mp huv with ⟨c, rfl, hc⟩ | ⟨c, hc, hb⟩
  · exact Or.inl ⟨u, c, rfl⟩
  · cases c with
    | nil =>
        rw [List.append_nil] at hc
        exact Or.inl ⟨u, [], by rw [List.append_nil, hc]⟩
    | cons y c =>
        rcases List.cons.inj hb with ⟨rfl, rfl⟩
        rcases List.append_eq_append_iff.mp hc with ⟨d, rfl, hd⟩ | ⟨d, rfl, hd⟩
        · exact absurd (hd ▸ List.mem_append_right d List.mem_cons_self) hx
        · cases d with
          | nil =>
              rw [List.nil_append] at hd
              exact absurd (hd ▸ List.mem_cons_self) hx
          | cons z d =>
              rcases List.cons.inj hd with ⟨rfl, rfl⟩
              exact Or.inr ⟨d, v, rfl⟩

theorem not_infix_of_not_mem {line : Text} (h : '\r' ∉ line) : ¬ crlf <:+: line := by
  intro hin
  exact h (hin.subset List.mem_cons_self)

/-! ## What is laid out is read -/

theorem number_toDigits (n : Nat) : number (Nat.toDigits 10 n) = some n := by
  have hne : Nat.toDigits 10 n ≠ [] := Nat.toDigits_ne_nil
  have hall : (Nat.toDigits 10 n).all Char.isDigit = true := by
    rw [List.all_eq_true]
    intro c hc
    exact Nat.isDigit_of_mem_toDigits (by omega) (by omega) hc
  rw [number, if_pos ⟨hne, hall⟩, Nat.ofDigitChars_ten_toDigits]

variable {ι : Type} {line : ι → Text} {field : ι → HeaderField}

theorem readFields_layout {items : List ι} (s : Text) :
    (∀ i ∈ items, line i ≠ [] ∧ ¬ crlf <:+: line i ∧ readField (line i) = some (field i)) →
      ∀ fuel, items.length < fuel →
        readFields fuel (items.flatMap (fun i => line i ++ crlf) ++ (crlf ++ s)) =
          some (items.map field, s) := by
  induction items with
  | nil =>
      intro _ fuel hfuel
      cases fuel with
      | zero => exact absurd hfuel (Nat.not_lt_zero _)
      | succ fuel =>
          have hread : readLine (crlf ++ s) = some ([], s) := by
            have hnil : ¬ crlf <:+: ([] : Text) := by
              intro h
              exact absurd (List.infix_nil.mp h) (List.cons_ne_nil _ _)
            exact readLine_append hnil s
          rw [List.flatMap_nil, List.nil_append, readFields, hread]
          rfl
  | cons i items ih =>
      intro hitems fuel hfuel
      cases fuel with
      | zero => exact absurd hfuel (Nat.not_lt_zero _)
      | succ fuel =>
          rcases hitems i List.mem_cons_self with ⟨hne, hfree, hfield⟩
          have hrest := ih (fun j hj => hitems j (List.mem_cons_of_mem i hj)) fuel
            (Nat.lt_of_succ_lt_succ hfuel)
          rw [List.flatMap_cons, List.append_assoc, List.append_assoc, readFields,
            readLine_append hfree]
          simp only [Option.bind_eq_bind, Option.bind_some, if_neg hne, hfield, hrest]
          rfl

theorem length_le_lines (items : List ι) :
    items.length ≤ (items.flatMap fun i => line i ++ crlf).length := by
  induction items with
  | nil => exact Nat.le_refl 0
  | cons i items ih =>
      rw [List.flatMap_cons, List.length_append, List.length_append]
      have hcrlf : crlf.length = 2 := rfl
      rw [List.length_cons, hcrlf]
      omega

/-- A request laid out line by line is read up to its body. -/
theorem parse_layout {requestLine method target : Text} {major minor : Nat} {items : List ι}
    (hfree : ¬ crlf <:+: requestLine)
    (hrequest : readRequestLine requestLine = some (method, target, major, minor))
    (hitems : ∀ i ∈ items,
      line i ≠ [] ∧ ¬ crlf <:+: line i ∧ readField (line i) = some (field i)) (s : Text) :
    parse (requestLine ++ (crlf ++ (items.flatMap (fun i => line i ++ crlf) ++ (crlf ++ s)))) =
      (readBody (items.map field) s).map fun (body, rest) =>
        (⟨method, target, major, minor, items.map field, body⟩, rest) := by
  have hfuel : items.length <
      (items.flatMap (fun i => line i ++ crlf) ++ (crlf ++ s)).length + 1 := by
    have hle := @length_le_lines ι line items
    rw [List.length_append]
    omega
  rw [parse, readLine_append hfree]
  simp only [Option.bind_eq_bind, Option.bind_some, hrequest,
    readFields_layout s hitems _ hfuel]
  cases readBody (items.map field) s <;> rfl

/-- Whatever is read, the target comes out of one line. -/
theorem target_free_of_parse {s rest : Text} {message : Message}
    (h : parse s = some (message, rest)) : ¬ crlf <:+: message.target := by
  rw [parse] at h
  rcases Option.bind_eq_some_iff.mp h with ⟨⟨line, behindLine⟩, hline, h⟩
  rcases Option.bind_eq_some_iff.mp h with ⟨⟨method, target, major, minor⟩, hrequest, h⟩
  rcases Option.bind_eq_some_iff.mp h with ⟨⟨fields, behindFields⟩, _, h⟩
  rcases Option.bind_eq_some_iff.mp h with ⟨⟨body, behindBody⟩, _, h⟩
  rcases Prod.mk.inj (Option.some.inj h) with ⟨rfl, _⟩
  rw [readRequestLine] at hrequest
  rcases Option.bind_eq_some_iff.mp hrequest with ⟨⟨method', behindMethod⟩, hmethod, hrequest⟩
  rcases Option.bind_eq_some_iff.mp hrequest with ⟨⟨target', behindTarget⟩, htarget, hrequest⟩
  rcases Option.bind_eq_some_iff.mp hrequest with ⟨version, _, hrequest⟩
  rcases Prod.mk.inj (Option.some.inj hrequest) with ⟨_, hrest⟩
  rcases Prod.mk.inj hrest with ⟨rfl, _⟩
  intro hin
  apply not_infix_of_readLine hline
  rw [(eq_of_cutAt hmethod).1, (eq_of_cutAt htarget).1]
  exact hin.trans ⟨method' ++ [' '], ' ' :: behindTarget, by simp⟩

end Smoll.Http
