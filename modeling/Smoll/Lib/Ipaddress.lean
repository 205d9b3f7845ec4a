/-
# `Smoll.Lib.Ipaddress` — Python's `ipaddress`, for IPv4

A text is a list of characters. `ipv4Network s strict` reads

    a.b.c.d               an address, the block of itself
    a.b.c.d/p             the block of the first p bits
    a.b.c.d/e.f.g.h       the same with the mask written out, or its complement

and raises an error that carries its text. `strict` decides about bits behind
the prefix: they are an error, or masked. An IPv6 network is not looked into.

In numbers the block of an address is what agrees with it up to the last
`32 - p` bits (`ipv4Network_block`, `addresses_eq`).
-/
import Mathlib.Data.List.Basic
import Mathlib.Data.List.Range
import Mathlib.Data.Nat.Bitwise

namespace Smoll.Ipaddress

abbrev Text := List Char

inductive ErrorKind where
  | addressValueError
  | netmaskValueError
  | valueError
deriving DecidableEq

structure Error where
  kind : ErrorKind
  message : Text
deriving DecidableEq

def decimal (n : Nat) : Text :=
  Nat.toDigits 10 n

/-! ## Addresses -/

variable (repr : Text → Text)

/-- `_parse_octet`; the error is a `ValueError`, given by its text. -/
def parseOctet (octet : Text) : Except Text Nat :=
  if octet = [] then
    .error "Empty octet not permitted".toList
  else if ¬ octet.all Char.isDigit then
    .error ("Only decimal digits permitted in ".toList ++ repr octet)
  else if 3 < octet.length then
    .error ("At most 3 characters permitted in ".toList ++ repr octet)
  else if octet ≠ ['0'] ∧ octet.head? = some '0' then
    .error ("Leading zeros are not permitted in ".toList ++ repr octet)
  else
    let octetInt := Nat.ofDigitChars 10 octet 0
    if 255 < octetInt then
      .error ("Octet ".toList ++ decimal octetInt ++ " (> 255) not permitted".toList)
    else
      .ok octetInt

/-- `int.from_bytes(octets, 'big')` -/
def fromBytes (octets : List Nat) : Nat :=
  octets.foldl (fun n octet => n * 256 + octet) 0

/-- `_ip_int_from_string`; the error is an `AddressValueError`. -/
def ipIntFromString (ipStr : Text) : Except Text Nat :=
  if ipStr = [] then
    .error "Address cannot be empty".toList
  else
    let octets := ipStr.splitOn '.'
    if octets.length ≠ 4 then
      .error ("Expected 4 octets in ".toList ++ repr ipStr)
    else
      match octets.mapM (parseOctet repr) with
      | .error exc => .error (exc ++ " in ".toList ++ repr ipStr)
      | .ok octets => .ok (fromBytes octets)

def toBytes (ip : Nat) : List Nat :=
  [ip / 2 ^ 24 % 256, ip / 2 ^ 16 % 256, ip / 2 ^ 8 % 256, ip % 256]

/-- `_string_from_ip_int` -/
def stringFromIpInt (ip : Nat) : Text :=
  ['.'].intercalate ((toBytes ip).map decimal)

/-! ## Masks -/

def allOnes : Nat := 2 ^ 32 - 1

def ipIntFromPrefix (prefixlen : Nat) : Nat :=
  allOnes ^^^ (allOnes >>> prefixlen)

def prefixFromPrefixString (prefixlenStr : Text) : Option Nat :=
  if prefixlenStr ≠ [] ∧ prefixlenStr.all Char.isDigit then
    let prefixlen := Nat.ofDigitChars 10 prefixlenStr 0
    if prefixlen ≤ 32 then some prefixlen else none
  else
    none

/-- Ones, and zeros behind them. -/
def prefixFromIpInt (ip : Nat) : Option Nat :=
  (List.range 33).find? fun prefixlen => ipIntFromPrefix prefixlen = ip

/-- A netmask, or else a hostmask. -/
def prefixFromIpString (ipStr : Text) : Option Nat :=
  match ipIntFromString repr ipStr with
  | .error _ => none
  | .ok ip => prefixFromIpInt ip <|> prefixFromIpInt (ip ^^^ allOnes)

def makeNetmask (arg : Text) : Except Error Nat :=
  match prefixFromPrefixString arg <|> prefixFromIpString repr arg with
  | some prefixlen => .ok prefixlen
  | none => .error ⟨.netmaskValueError, repr arg ++ " is not a valid netmask".toList⟩

/-! ## Networks -/

structure IPv4Network where
  networkAddress : Nat
  prefixlen : Nat
deriving DecidableEq

/-- `str(self)` -/
def IPv4Network.str (self : IPv4Network) : Text :=
  stringFromIpInt self.networkAddress ++ '/' :: decimal self.prefixlen

/-- The end of `IPv4Network.__init__`. -/
def mkNetwork (packed prefixlen : Nat) (strict : Bool) : Except Error IPv4Network :=
  let netmask := ipIntFromPrefix prefixlen
  if packed &&& netmask ≠ packed then
    if strict then
      .error ⟨.valueError, (⟨packed, prefixlen⟩ : IPv4Network).str ++ " has host bits set".toList⟩
    else
      .ok ⟨packed &&& netmask, prefixlen⟩
  else
    .ok ⟨packed, prefixlen⟩

/-- `IPv4Network(address, strict)` -/
def ipv4Network (address : Text) (strict : Bool) : Except Error IPv4Network :=
  match address.splitOn '/' with
  | [addr] =>
      match ipIntFromString repr addr with
      | .error message => .error ⟨.addressValueError, message⟩
      | .ok packed => mkNetwork packed 32 strict
  | [addr, mask] =>
      match ipIntFromString repr addr with
      | .error message => .error ⟨.addressValueError, message⟩
      | .ok packed =>
          match makeNetmask repr mask with
          | .error e => .error e
          | .ok prefixlen => mkNetwork packed prefixlen strict
  | _ => .error ⟨.addressValueError, "Only one '/' permitted in ".toList ++ repr address⟩

def IPv4Network.broadcastAddress (self : IPv4Network) : Nat :=
  self.networkAddress ||| (ipIntFromPrefix self.prefixlen ^^^ allOnes)

/-- The addresses of the network, as an iteration over it gives them. -/
def IPv4Network.addresses (self : IPv4Network) : List Nat :=
  List.range' self.networkAddress (self.broadcastAddress + 1 - self.networkAddress)

/-- `ip_network(address, strict)`, for the texts of the addresses; the IPv6 network may
raise an error too. -/
def ipNetwork (ipv6Network : Text → Bool → Except Error (List Text)) (address : Text)
    (strict : Bool) : Except Error (List Text) :=
  match ipv4Network repr address strict with
  | .ok network => .ok (network.addresses.map stringFromIpInt)
  | .error e =>
      if e.kind = .valueError then
        .error e
      else
        match ipv6Network address strict with
        | .ok ips => .ok ips
        | .error e =>
            if e.kind = .valueError then
              .error e
            else
              .error ⟨.valueError,
                repr address ++ " does not appear to be an IPv4 or IPv6 network".toList⟩

/-! ## What is written is read -/

theorem isDigit_of_mem_decimal {c : Char} {n : Nat} (hc : c ∈ decimal n) : c.isDigit = true :=
  Nat.isDigit_of_mem_toDigits (by omega) (by omega) hc

/-- A number has no leading zero. -/
theorem head?_decimal {n : Nat} : n ≠ 0 → (decimal n).head? ≠ some '0' := by
  induction n using Nat.strongRecOn with
  | ind n ih =>
      intro hn
      by_cases hlt : n < 10
      · have hdigits : ∀ m < 10, m ≠ 0 → (decimal m).head? ≠ some '0' := by decide
        exact hdigits n hlt hn
      · have hdiv := ih (n / 10) (by omega) (by omega)
        rw [decimal, Nat.toDigits_of_base_le (by omega) (by omega),
          List.head?_append_of_ne_nil _ Nat.toDigits_ne_nil]
        exact hdiv

theorem parseOctet_decimal {n : Nat} (hn : n < 256) : parseOctet repr (decimal n) = .ok n := by
  have hne : decimal n ≠ [] := Nat.toDigits_ne_nil
  have hall : (decimal n).all Char.isDigit = true := by
    rw [List.all_eq_true]
    intro c hc
    exact isDigit_of_mem_decimal hc
  have hlength : ¬ 3 < (decimal n).length := by
    have hle : (decimal n).length ≤ 3 := (Nat.length_toDigits_le_iff (by omega) (by omega)).mpr (by omega)
    omega
  have hzero : ¬ (decimal n ≠ ['0'] ∧ (decimal n).head? = some '0') := by
    rintro ⟨hword, hhead⟩
    by_cases h : n = 0
    · exact hword (by rw [h]; rfl)
    · exact head?_decimal h hhead
  have hvalue : Nat.ofDigitChars 10 (decimal n) 0 = n := Nat.ofDigitChars_ten_toDigits
  rw [parseOctet, if_neg hne, if_neg (not_not_intro hall), if_neg hlength, if_neg hzero]
  simp only [hvalue]
  exact if_neg (by omega)

theorem mapM_parseOctet {octets : List Nat} :
    (∀ n ∈ octets, n < 256) → (octets.map decimal).mapM (parseOctet repr) = .ok octets := by
  induction octets with
  | nil =>
      intro _
      rfl
  | cons n octets ih =>
      intro hoctets
      have hrest := ih fun m hm => hoctets m (List.mem_cons_of_mem n hm)
      rw [List.map_cons, List.mapM_cons, parseOctet_decimal repr (hoctets n List.mem_cons_self),
        hrest]
      rfl

theorem fromBytes_toBytes {ip : Nat} (hip : ip < 2 ^ 32) : fromBytes (toBytes ip) = ip := by
  simp only [fromBytes, toBytes, List.foldl_cons, List.foldl_nil]
  omega

theorem splitOn_stringFromIpInt (ip : Nat) :
    (stringFromIpInt ip).splitOn '.' = (toBytes ip).map decimal := by
  apply List.splitOn_intercalate
  · intro octet hoctet hdot
    rcases List.mem_map.mp hoctet with ⟨n, _, rfl⟩
    exact absurd (isDigit_of_mem_decimal hdot) (by decide)
  · exact List.cons_ne_nil _ _

theorem ipIntFromString_stringFromIpInt {ip : Nat} (hip : ip < 2 ^ 32) :
    ipIntFromString repr (stringFromIpInt ip) = .ok ip := by
  have hoctets : ∀ n ∈ toBytes ip, n < 256 := by
    intro n hn
    simp only [toBytes, List.mem_cons, List.not_mem_nil, or_false] at hn
    omega
  have hne : stringFromIpInt ip ≠ [] := by
    intro hnil
    have hsplit := splitOn_stringFromIpInt ip
    rw [hnil] at hsplit
    have hparts : (([] : Text).splitOn '.').length = 4 := congrArg List.length hsplit
    exact absurd hparts (by decide)
  have hlength : ¬ ((toBytes ip).map decimal).length ≠ 4 := not_not_intro rfl
  rw [ipIntFromString, if_neg hne]
  simp only [splitOn_stringFromIpInt, if_neg hlength, mapM_parseOctet repr hoctets,
    fromBytes_toBytes hip]

/-- An address is made of digits and dots. -/
theorem mem_stringFromIpInt {c : Char} {ip : Nat} (hc : c ∈ stringFromIpInt ip) :
    c.isDigit = true ∨ c = '.' := by
  have hword : stringFromIpInt ip =
      decimal (ip / 2 ^ 24 % 256) ++ ('.' :: (decimal (ip / 2 ^ 16 % 256) ++
        ('.' :: (decimal (ip / 2 ^ 8 % 256) ++ ('.' :: decimal (ip % 256)))))) := by
    simp [stringFromIpInt, toBytes, List.intercalate]
  rw [hword] at hc
  simp only [List.mem_append, List.mem_cons] at hc
  rcases hc with hc | hc | hc | hc | hc | hc | hc
  · exact Or.inl (isDigit_of_mem_decimal hc)
  · exact Or.inr hc
  · exact Or.inl (isDigit_of_mem_decimal hc)
  · exact Or.inr hc
  · exact Or.inl (isDigit_of_mem_decimal hc)
  · exact Or.inr hc
  · exact Or.inl (isDigit_of_mem_decimal hc)

theorem slash_not_mem_stringFromIpInt (ip : Nat) : '/' ∉ stringFromIpInt ip := by
  intro hc
  rcases mem_stringFromIpInt hc with hdigit | hdot
  · exact absurd hdigit (by decide)
  · exact absurd hdot (by decide)

/-! ## Blocks in numbers -/

/-- The first address of the block. -/
def blockStart (ip prefixlen : Nat) : Nat :=
  ip / 2 ^ (32 - prefixlen) * 2 ^ (32 - prefixlen)

def block (ip prefixlen : Nat) : List Nat :=
  List.range' (blockStart ip prefixlen) (2 ^ (32 - prefixlen))

theorem allOnes_shiftRight {prefixlen : Nat} (hp : prefixlen ≤ 32) :
    allOnes >>> prefixlen = 2 ^ (32 - prefixlen) - 1 := by
  apply Nat.eq_of_testBit_eq
  intro i
  rw [Nat.testBit_shiftRight, allOnes, Nat.testBit_two_pow_sub_one, Nat.testBit_two_pow_sub_one,
    decide_eq_decide]
  omega

theorem and_netmask {ip prefixlen : Nat} (hip : ip < 2 ^ 32) (hp : prefixlen ≤ 32) :
    ip &&& ipIntFromPrefix prefixlen = blockStart ip prefixlen := by
  rw [ipIntFromPrefix, allOnes_shiftRight hp, blockStart, ← Nat.shiftRight_eq_div_pow,
    ← Nat.shiftLeft_eq]
  apply Nat.eq_of_testBit_eq
  intro i
  rw [Nat.testBit_and, Nat.testBit_xor, allOnes, Nat.testBit_two_pow_sub_one,
    Nat.testBit_two_pow_sub_one, Nat.testBit_shiftLeft, Nat.testBit_shiftRight]
  by_cases hbehind : i < 32 - prefixlen
  · have hi : i < 32 := by omega
    have hshift : ¬ 32 - prefixlen ≤ i := by omega
    rw [decide_eq_true hi, decide_eq_true hbehind, decide_eq_false hshift, Bool.xor_self,
      Bool.and_false, Bool.false_and]
  · have hshift : 32 - prefixlen ≤ i := by omega
    have hback : 32 - prefixlen + (i - (32 - prefixlen)) = i := by omega
    rw [decide_eq_false hbehind, decide_eq_true hshift, hback, Bool.xor_false, Bool.true_and]
    by_cases hi : i < 32
    · rw [decide_eq_true hi, Bool.and_true]
    · have hlt : ip < 2 ^ i := Nat.lt_of_lt_of_le hip (Nat.pow_le_pow_right (by omega) (by omega))
      rw [Nat.testBit_lt_two_pow hlt, Bool.false_and]

theorem hostmask {prefixlen : Nat} (hp : prefixlen ≤ 32) :
    ipIntFromPrefix prefixlen ^^^ allOnes = 2 ^ (32 - prefixlen) - 1 := by
  rw [ipIntFromPrefix, Nat.xor_comm allOnes, Nat.xor_assoc, Nat.xor_self, Nat.xor_zero,
    allOnes_shiftRight hp]

theorem addresses_eq {ip prefixlen : Nat} (hp : prefixlen ≤ 32) :
    (⟨blockStart ip prefixlen, prefixlen⟩ : IPv4Network).addresses = block ip prefixlen := by
  have hlt : 2 ^ (32 - prefixlen) - 1 < 2 ^ (32 - prefixlen) :=
    Nat.sub_lt (Nat.two_pow_pos _) Nat.one_pos
  have hbroadcast : blockStart ip prefixlen ||| (2 ^ (32 - prefixlen) - 1) =
      blockStart ip prefixlen + (2 ^ (32 - prefixlen) - 1) := by
    rw [blockStart, Nat.mul_comm, ← Nat.two_pow_add_eq_or_of_lt hlt]
  have hpos := Nat.two_pow_pos (32 - prefixlen)
  rw [IPv4Network.addresses, IPv4Network.broadcastAddress, hostmask hp, hbroadcast, block]
  have hlength : blockStart ip prefixlen + (2 ^ (32 - prefixlen) - 1) + 1 -
      blockStart ip prefixlen = 2 ^ (32 - prefixlen) := by omega
  rw [hlength]

/-- A block given by its first address. -/
theorem addresses_of_start {ip prefixlen : Nat} (hp : prefixlen ≤ 32)
    (hstart : blockStart ip prefixlen = ip) :
    (⟨ip, prefixlen⟩ : IPv4Network).addresses = block ip prefixlen := by
  have hblock := @addresses_eq ip prefixlen hp
  rw [hstart] at hblock
  exact hblock

theorem blockStart_32 (ip : Nat) : blockStart ip 32 = ip := by
  rw [blockStart]
  omega

theorem block_32 (ip : Nat) : block ip 32 = [ip] := by
  rw [block, blockStart_32]
  rfl

theorem block_ne_nil (ip prefixlen : Nat) : block ip prefixlen ≠ [] := by
  intro hnil
  have hlength := congrArg List.length hnil
  rw [block, List.length_range'] at hlength
  exact absurd hlength (Nat.two_pow_pos _).ne'

/-! ## What a network is read from -/

theorem mkNetwork_eq {ip prefixlen : Nat} (hip : ip < 2 ^ 32) (hp : prefixlen ≤ 32)
    (strict : Bool) :
    mkNetwork ip prefixlen strict =
      if blockStart ip prefixlen = ip then .ok ⟨ip, prefixlen⟩
      else if strict then
        .error ⟨.valueError, (⟨ip, prefixlen⟩ : IPv4Network).str ++ " has host bits set".toList⟩
      else .ok ⟨blockStart ip prefixlen, prefixlen⟩ := by
  simp only [mkNetwork, and_netmask hip hp]
  by_cases hstart : blockStart ip prefixlen = ip
  · rw [if_neg (not_not_intro hstart), if_pos hstart]
  · rw [if_pos hstart, if_neg hstart]

theorem ipv4Network_address {ip : Nat} (hip : ip < 2 ^ 32) (strict : Bool) :
    ipv4Network repr (stringFromIpInt ip) strict = .ok ⟨ip, 32⟩ := by
  rw [ipv4Network, List.splitOn_eq_singleton (slash_not_mem_stringFromIpInt ip)]
  simp only [ipIntFromString_stringFromIpInt repr hip]
  rw [mkNetwork_eq hip (Nat.le_refl 32), if_pos (blockStart_32 ip)]

theorem prefixFromPrefixString_spec {mask : Text} {prefixlen : Nat}
    (h : prefixFromPrefixString mask = some prefixlen) : '/' ∉ mask ∧ prefixlen ≤ 32 := by
  rw [prefixFromPrefixString] at h
  split at h
  · rename_i hdigits
    constructor
    · intro hslash
      exact absurd (List.all_eq_true.mp hdigits.2 '/' hslash) (by decide)
    · by_cases hle : Nat.ofDigitChars 10 mask 0 ≤ 32
      · rw [if_pos hle] at h
        cases h
        exact hle
      · rw [if_neg hle] at h
        cases h
  · cases h

/-- A block with bits behind its prefix is an error, or masked. -/
theorem ipv4Network_block {ip prefixlen : Nat} {mask : Text} (hip : ip < 2 ^ 32)
    (hmask : prefixFromPrefixString mask = some prefixlen) (strict : Bool) :
    ipv4Network repr (stringFromIpInt ip ++ '/' :: mask) strict = mkNetwork ip prefixlen strict := by
  have hslash := (prefixFromPrefixString_spec hmask).1
  have hsplit : (stringFromIpInt ip ++ '/' :: mask).splitOn '/' = [stringFromIpInt ip, mask] := by
    rw [List.splitOn_append_cons_self_of_not_mem (slash_not_mem_stringFromIpInt ip),
      List.splitOn_eq_singleton hslash]
  have hnetmask : makeNetmask repr mask = .ok prefixlen := by
    rw [makeNetmask, hmask]
    rfl
  rw [ipv4Network, hsplit]
  simp only [ipIntFromString_stringFromIpInt repr hip, hnetmask]

end Smoll.Ipaddress
