/-
# `Smoll.Ips.Expand` — `expand-ips.py`

The script reads each line, stripped, as an IPv4 network and writes its
addresses one a line. A network with bits behind its prefix is an error, and is
meant to be read again with those bits masked; which error it is, the script
asks its text, and there the word is not the library's:

    asked for       has host bit set
    raised          10.0.0.1/31 has host bits set

So such a block is left out. A line the library rejects is left out too, unless
its text brings the words asked for into the message, when the second reading
raises and the script ends (`expand_iff`).
-/
import Mathlib.Data.List.DropRight
import Mathlib.Data.List.Forall2
import Mathlib.Data.List.Infix
import Smoll.Lib.Ipaddress

namespace Smoll.ExpandIps

open Smoll.Ipaddress

/-! ## The script -/

/-- `str.isspace` -/
def isSpace (c : Char) : Bool :=
  let n := c.toNat
  (0x9 ≤ n && n ≤ 0xD) || (0x1C ≤ n && n ≤ 0x20) || n == 0x85 || n == 0xA0 || n == 0x1680 ||
    (0x2000 ≤ n && n ≤ 0x200A) || n == 0x2028 || n == 0x2029 || n == 0x202F || n == 0x205F ||
    n == 0x3000

/-- `str.strip` -/
def strip (s : Text) : Text :=
  (s.dropWhile isSpace).rdropWhile isSpace

def marker : Text := "has host bit set".toList

variable (repr : Text → Text) (ipv6Network : Text → Bool → Except Error (List Text))

/-- The `try` of a line: its addresses, or the exception of the handler. -/
def tryLine (line : Text) : Except Error (List Text) :=
  match ipv4Network repr (strip line) true with
  | .ok network => .ok (network.addresses.map stringFromIpInt)
  | .error e =>
      if marker <:+: e.message then
        ipNetwork repr ipv6Network line false
      else
        .ok []

/-- The loop over the lines. -/
def expandFrom (ips : List Text) : List Text → Except Error (List Text)
  | [] => .ok ips
  | line :: lines =>
      match tryLine repr ipv6Network line with
      | .error e => .error e
      | .ok more => expandFrom (ips ++ more) lines

/-- One address a line. -/
def fileText (ips : List Text) : Text :=
  ips.flatMap fun ip => ip ++ ['\n']

/-- What is written: nothing if an exception ends the script first. -/
def outFile (lines : List Text) : Except Error Text :=
  (expandFrom repr ipv6Network [] lines).map fileText

/-! ## What it is for -/

/-- The library rejects the stripped line, and also the line as it is. -/
structure Malformed (line : Text) : Prop where
  rejected : ∃ e, ipv4Network repr (strip line) true = .error e ∧ e.kind ≠ .valueError
  raises : ∃ e, ipNetwork repr ipv6Network line false = .error e

/-- The lines of a file and their addresses. -/
inductive Expands : Text → List Text → Prop where
  | address {line : Text} {ip : Nat} (hip : ip < 2 ^ 32) (hline : strip line = stringFromIpInt ip) :
      Expands line [stringFromIpInt ip]
  | block {line mask : Text} {ip prefixlen : Nat} (hip : ip < 2 ^ 32)
      (hmask : prefixFromPrefixString mask = some prefixlen)
      (hline : strip line = stringFromIpInt ip ++ '/' :: mask) :
      Expands line ((block ip prefixlen).map stringFromIpInt)
  | malformed {line : Text} (hline : Malformed repr ipv6Network line) : Expands line []

/-- A block given by an address behind its first. -/
def HostBits (line : Text) : Prop :=
  ∃ ip mask prefixlen, ip < 2 ^ 32 ∧ prefixFromPrefixString mask = some prefixlen ∧
    strip line = stringFromIpInt ip ++ '/' :: mask ∧ blockStart ip prefixlen ≠ ip

/-- A line that is rejected with the words asked for. -/
def Stops (line : Text) : Prop :=
  Malformed repr ipv6Network line ∧
    ∃ e, ipv4Network repr (strip line) true = .error e ∧ marker <:+: e.message

/-! ## One line -/

theorem infix_of_append {w a b : Text} (hw : w ≠ []) :
    (∀ c ∈ a, c ∉ w) → w <:+: a ++ b → w <:+: b := by
  induction a with
  | nil =>
      intro _ h
      exact h
  | cons c a ih =>
      intro hfree h
      rcases List.infix_cons_iff.mp h with hprefix | hin
      · cases w with
        | nil => exact absurd rfl hw
        | cons d w =>
            have hd : d = c := by
              rcases hprefix with ⟨t, ht⟩
              exact (List.cons.inj ht).1
            exact absurd (hd ▸ List.mem_cons_self) (hfree c List.mem_cons_self)
      · exact ih (fun d hd => hfree d (List.mem_cons_of_mem c hd)) hin

/-- The message of the library does not hold the words asked for. -/
theorem not_marker_hostBits (network : IPv4Network) :
    ¬ marker <:+: network.str ++ " has host bits set".toList := by
  intro h
  have hfree : ∀ c ∈ network.str, c ∉ marker := by
    intro c hc hmarker
    have hletters : marker.all (fun c => !c.isDigit && c != '.' && c != '/') = true := rfl
    have hletter := List.all_eq_true.mp hletters c hmarker
    simp only [Bool.and_eq_true, Bool.not_eq_true', bne_iff_ne] at hletter
    rcases hletter with ⟨⟨hdigit, hdot⟩, hslash⟩
    rcases List.mem_append.mp hc with hc | hc
    · rcases mem_stringFromIpInt hc with h | h
      · rw [hdigit] at h
        cases h
      · exact hdot h
    · rcases List.mem_cons.mp hc with h | h
      · exact hslash h
      · have hd := isDigit_of_mem_decimal h
        rw [hdigit] at hd
        cases hd
  have hin := infix_of_append (by decide) hfree h
  exact absurd hin (by decide)

variable {repr} {ipv6Network}

theorem ipv4Network_of_hostBits {line : Text} (h : HostBits line) :
    ∃ network : IPv4Network, ipv4Network repr (strip line) true =
      .error ⟨.valueError, network.str ++ " has host bits set".toList⟩ := by
  rcases h with ⟨ip, mask, prefixlen, hip, hmask, hline, hstart⟩
  refine ⟨⟨ip, prefixlen⟩, ?_⟩
  rw [hline, ipv4Network_block repr hip hmask, mkNetwork_eq hip (prefixFromPrefixString_spec hmask).2,
    if_neg hstart, if_pos rfl]

theorem not_hostBits_of_malformed {line : Text} (h : Malformed repr ipv6Network line) :
    ¬ HostBits line := by
  intro hbits
  rcases h.rejected with ⟨e, he, hkind⟩
  rcases ipv4Network_of_hostBits hbits with ⟨network, hnetwork⟩
  cases he.symm.trans hnetwork
  exact hkind rfl

theorem not_hostBits_of_ok {line : Text} {network : IPv4Network}
    (hread : ipv4Network repr (strip line) true = .ok network) : ¬ HostBits line := by
  intro hbits
  rcases @ipv4Network_of_hostBits repr line hbits with ⟨_, hnetwork⟩
  rw [hread] at hnetwork
  cases hnetwork

theorem not_stops_of_ok {line : Text} {network : IPv4Network}
    (hread : ipv4Network repr (strip line) true = .ok network) :
    ¬ Stops repr ipv6Network line := by
  rintro ⟨_, e, he, _⟩
  rw [hread] at he
  cases he

/-- A line that is read as a block by its first address. -/
theorem tryLine_of_ok {line : Text} {ip prefixlen : Nat} (hp : prefixlen ≤ 32)
    (hstart : blockStart ip prefixlen = ip)
    (hread : ipv4Network repr (strip line) true = .ok ⟨ip, prefixlen⟩) :
    tryLine repr ipv6Network line = .ok ((block ip prefixlen).map stringFromIpInt) ∧
      ¬ HostBits line ∧ ¬ Stops repr ipv6Network line := by
  refine ⟨?_, not_hostBits_of_ok hread, not_stops_of_ok hread⟩
  rw [tryLine, hread]
  simp only [addresses_of_start hp hstart]

/-- A block by another of its addresses is left out. -/
theorem tryLine_of_hostBits {line : Text} (hbits : HostBits line) :
    tryLine repr ipv6Network line = .ok [] := by
  rcases @ipv4Network_of_hostBits repr line hbits with ⟨network, hnetwork⟩
  rw [tryLine, hnetwork]
  exact if_neg (not_marker_hostBits network)

/-- A rejected line is left out, unless its message holds the words asked for. -/
theorem tryLine_of_malformed {line : Text} (hline : Malformed repr ipv6Network line) :
    (tryLine repr ipv6Network line = .ok [] ∧ ¬ Stops repr ipv6Network line) ∨
      ((∃ e, tryLine repr ipv6Network line = .error e) ∧ Stops repr ipv6Network line) := by
  rcases hline.rejected with ⟨e, he, _⟩
  by_cases hmarker : marker <:+: e.message
  · refine Or.inr ⟨?_, hline, e, he, hmarker⟩
    rcases hline.raises with ⟨e', he'⟩
    refine ⟨e', ?_⟩
    rw [tryLine, he]
    exact (if_pos hmarker).trans he'
  · refine Or.inl ⟨?_, ?_⟩
    · rw [tryLine, he]
      exact if_neg hmarker
    · rintro ⟨_, e', he', hmarker'⟩
      cases he.symm.trans he'
      exact hmarker hmarker'

/-- What becomes of a line: its addresses, or nothing where there should be some, or
the end of the script. -/
theorem tryLine_cases {line : Text} {ips : List Text} (h : Expands repr ipv6Network line ips) :
    (tryLine repr ipv6Network line = .ok ips ∧ ¬ HostBits line ∧ ¬ Stops repr ipv6Network line) ∨
    (tryLine repr ipv6Network line = .ok [] ∧ ips ≠ [] ∧ HostBits line) ∨
    ((∃ e, tryLine repr ipv6Network line = .error e) ∧ Stops repr ipv6Network line) := by
  cases h with
  | @address ip hip hline =>
      have hread : ipv4Network repr (strip line) true = .ok ⟨ip, 32⟩ := by
        rw [hline]
        exact ipv4Network_address repr hip true
      have htry := @tryLine_of_ok repr ipv6Network line ip 32 (Nat.le_refl 32) (blockStart_32 ip) hread
      rw [block_32] at htry
      exact Or.inl htry
  | @block mask ip prefixlen hip hmask hline =>
      have hp := (prefixFromPrefixString_spec hmask).2
      by_cases hstart : blockStart ip prefixlen = ip
      · have hread : ipv4Network repr (strip line) true = .ok ⟨ip, prefixlen⟩ := by
          rw [hline, ipv4Network_block repr hip hmask, mkNetwork_eq hip hp, if_pos hstart]
        exact Or.inl (tryLine_of_ok hp hstart hread)
      · have hbits : HostBits line := ⟨ip, mask, prefixlen, hip, hmask, hline, hstart⟩
        refine Or.inr (Or.inl ⟨tryLine_of_hostBits hbits, ?_, hbits⟩)
        intro hnil
        exact block_ne_nil ip prefixlen (List.map_eq_nil_iff.mp hnil)
  | malformed hline =>
      rcases tryLine_of_malformed hline with ⟨htry, hstops⟩ | hstop
      · exact Or.inl ⟨htry, not_hostBits_of_malformed hline, hstops⟩
      · exact Or.inr (Or.inr hstop)

/-! ## The whole file -/

theorem expandFrom_cons_ok {line : Text} {lines ips result : List Text}
    (h : expandFrom repr ipv6Network ips (line :: lines) = .ok result) :
    ∃ more, tryLine repr ipv6Network line = .ok more ∧
      expandFrom repr ipv6Network (ips ++ more) lines = .ok result := by
  rw [expandFrom] at h
  split at h
  · cases h
  · rename_i more hmore
    exact ⟨more, hmore, h⟩

theorem fileText_append (ips ips' : List Text) :
    fileText (ips ++ ips') = fileText ips ++ fileText ips' :=
  List.flatMap_append

theorem length_fileText_pos {ips : List Text} (h : ips ≠ []) : 0 < (fileText ips).length := by
  cases ips with
  | nil => exact absurd rfl h
  | cons ip ips =>
      rw [fileText, List.flatMap_cons, List.length_append, List.length_append, List.length_singleton]
      omega

variable {lines : List Text} {addresses : List (List Text)}

theorem expandFrom_of_read (h : List.Forall₂ (Expands repr ipv6Network) lines addresses) :
    (∀ line ∈ lines, ¬ HostBits line ∧ ¬ Stops repr ipv6Network line) →
      ∀ ips, expandFrom repr ipv6Network ips lines = .ok (ips ++ addresses.flatten) := by
  induction h with
  | nil =>
      intro _ ips
      rw [expandFrom, List.flatten_nil, List.append_nil]
  | @cons line more lines addresses hline _ ih =>
      intro hread ips
      have hrest := ih fun l hl => hread l (List.mem_cons_of_mem line hl)
      rcases hread line List.mem_cons_self with ⟨hbits, hstops⟩
      rcases tryLine_cases hline with ⟨htry, _⟩ | ⟨_, _, h⟩ | ⟨_, h⟩
      · rw [expandFrom, htry]
        simp only [hrest, List.flatten_cons, List.append_assoc]
      · exact absurd h hbits
      · exact absurd h hstops

/-- The script writes at most what it should, and less as soon as a block with bits
behind its prefix is in the file. -/
theorem length_expandFrom (h : List.Forall₂ (Expands repr ipv6Network) lines addresses) :
    ∀ {ips result : List Text}, expandFrom repr ipv6Network ips lines = .ok result →
      (fileText result).length ≤ (fileText (ips ++ addresses.flatten)).length ∧
        ((fileText result).length = (fileText (ips ++ addresses.flatten)).length →
          ∀ line ∈ lines, ¬ HostBits line ∧ ¬ Stops repr ipv6Network line) := by
  induction h with
  | nil =>
      intro ips result hresult
      cases hresult
      rw [List.flatten_nil, List.append_nil]
      refine ⟨Nat.le_refl _, ?_⟩
      intro _ line hl
      cases hl
  | @cons line more lines addresses hline _ ih =>
      intro ips result hresult
      rcases expandFrom_cons_ok hresult with ⟨taken, htaken, hresult⟩
      rcases ih hresult with ⟨hle, hall⟩
      rw [List.flatten_cons]
      simp only [fileText_append, List.length_append] at hle hall ⊢
      rcases tryLine_cases hline with ⟨htry, hread⟩ | ⟨htry, hmore, _⟩ | ⟨⟨e, htry⟩, _⟩
      · cases htaken.symm.trans htry
        refine ⟨by omega, ?_⟩
        intro heq l hl
        rcases List.mem_cons.mp hl with rfl | hl
        · exact hread
        · exact hall (by omega) l hl
      · cases htaken.symm.trans htry
        have hpos := length_fileText_pos hmore
        have hnil : (fileText []).length = 0 := rfl
        refine ⟨by omega, ?_⟩
        intro heq
        omega
      · cases htaken.symm.trans htry

/-- The file holds the addresses of every line in order exactly if no block has bits
behind its prefix and no rejected line brings the words the script asks for. -/
theorem expand_iff (repr : Text → Text) (ipv6Network : Text → Bool → Except Error (List Text))
    (lines : List Text) (addresses : List (List Text))
    (h : List.Forall₂ (Expands repr ipv6Network) lines addresses) :
    outFile repr ipv6Network lines = .ok (fileText addresses.flatten) ↔
      ∀ line ∈ lines, ¬ HostBits line ∧ ¬ Stops repr ipv6Network line := by
  constructor
  · intro hout
    cases hexpand : expandFrom repr ipv6Network [] lines with
    | error e =>
        rw [outFile, hexpand] at hout
        cases hout
    | ok result =>
        rw [outFile, hexpand] at hout
        have htext : fileText result = fileText addresses.flatten := Except.ok.inj hout
        refine (length_expandFrom h hexpand).2 ?_
        rw [htext, List.nil_append]
  · intro hread
    rw [outFile, expandFrom_of_read h hread, List.nil_append]
    rfl

/-- Python's `repr` of a text without a quote. -/
def quoted (s : Text) : Text :=
  '\'' :: (s ++ ['\''])

def noIpv6 (_ : Text) (_ : Bool) : Except Error (List Text) :=
  .error ⟨.addressValueError, []⟩

/-- A block, and a line that is none. -/
def sample : List Text :=
  ["10.0.0.0/31\n".toList, "x\n".toList]

theorem malformed_x : Malformed quoted noIpv6 "x\n".toList where
  rejected := ⟨_, rfl, by decide⟩
  raises := ⟨_, rfl⟩

theorem expand_iff_sample :
    outFile quoted noIpv6 sample = .ok "10.0.0.0\n10.0.0.1\n".toList := by
  have hblock : Expands quoted noIpv6 "10.0.0.0/31\n".toList
      ((block 0x0A000000 31).map stringFromIpInt) :=
    @Expands.block quoted noIpv6 _ "31".toList _ _ (by decide) (by decide) (by decide)
  refine (expand_iff quoted noIpv6 sample [_, []]
    (.cons hblock (.cons (.malformed malformed_x) .nil))).mpr ?_
  intro line hline
  rcases List.mem_cons.mp hline with rfl | hline
  · have hread : ipv4Network quoted (strip "10.0.0.0/31\n".toList) true =
        .ok ⟨0x0A000000, 31⟩ := by decide
    exact ⟨not_hostBits_of_ok hread, not_stops_of_ok hread⟩
  · rw [List.mem_singleton.mp hline]
    refine ⟨not_hostBits_of_malformed malformed_x, ?_⟩
    rintro ⟨_, e, he, hmarker⟩
    have hmessage : ipv4Network quoted (strip "x\n".toList) true =
        .error ⟨.addressValueError, "Expected 4 octets in 'x'".toList⟩ := by decide
    cases he.symm.trans hmessage
    exact absurd hmarker (by decide)

/-- The two addresses of `10.0.0.1/31` are not written. -/
theorem not_expand :
    ¬ ∀ (repr : Text → Text) (ipv6Network : Text → Bool → Except Error (List Text))
        (lines : List Text) (addresses : List (List Text)),
        List.Forall₂ (Expands repr ipv6Network) lines addresses →
        outFile repr ipv6Network lines = .ok (fileText addresses.flatten) := by
  intro h
  have hblock : Expands quoted noIpv6 "10.0.0.1/31\n".toList
      ((block 0x0A000001 31).map stringFromIpInt) :=
    @Expands.block quoted noIpv6 _ "31".toList _ _ (by decide) (by decide) (by decide)
  have hout := h quoted noIpv6 ["10.0.0.1/31\n".toList] _ (.cons hblock .nil)
  have hempty : outFile quoted noIpv6 ["10.0.0.1/31\n".toList] = .ok [] := by decide
  cases hempty.symm.trans hout

end Smoll.ExpandIps
