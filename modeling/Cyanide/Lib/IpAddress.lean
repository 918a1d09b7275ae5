import Cyanide.Lib.PyText

/-!
# IP addresses

Addresses of both versions with their text forms and the special networks, as in Python's `ipaddress`.  An IPv6
address that maps an IPv4 address is of the kind of that one.  The `Internet` resolves hosts to addresses, of which a
client connects to the first one that accepts.
-/

inductive IpAddress where
  | v4 (value : BitVec 32)
  | v6 (value : BitVec 128)
  deriving DecidableEq

/-- An address and the number of bits that all addresses of the network share with it. -/
structure IpNetwork (w : ℕ) where
  address : BitVec w
  bits : ℕ

namespace IpNetwork

def contains {w : ℕ} (network : IpNetwork w) (a : BitVec w) : Bool :=
  a >>> (w - network.bits) == network.address >>> (w - network.bits)

/-- From the first octets. -/
def ofOctets (octets : List ℕ) (bits : ℕ) : IpNetwork 32 :=
  ⟨BitVec.ofNat 32 (octets.foldl (fun n octet => n * 256 + octet) 0 * 256 ^ (4 - octets.length)), bits⟩

/-- From the first groups of 16 bits. -/
def ofHextets (hextets : List ℕ) (bits : ℕ) : IpNetwork 128 :=
  ⟨BitVec.ofNat 128 (hextets.foldl (fun n hextet => n * 65536 + hextet) 0 * 65536 ^ (8 - hextets.length)), bits⟩

end IpNetwork

namespace IpAddress

open IpNetwork PyText

/-! ### Kinds of addresses -/

def private4 : List (IpNetwork 32) :=
  [ofOctets [0] 8, ofOctets [10] 8, ofOctets [127] 8, ofOctets [169, 254] 16, ofOctets [172, 16] 12,
    ofOctets [192, 0, 0] 24, ofOctets [192, 0, 0, 170] 31, ofOctets [192, 0, 2] 24, ofOctets [192, 168] 16,
    ofOctets [198, 18] 15, ofOctets [198, 51, 100] 24, ofOctets [203, 0, 113] 24, ofOctets [240] 4,
    ofOctets [255, 255, 255, 255] 32]

def private4Exceptions : List (IpNetwork 32) := [ofOctets [192, 0, 0, 9] 32, ofOctets [192, 0, 0, 10] 32]

def private6 : List (IpNetwork 128) :=
  [ofHextets [0, 0, 0, 0, 0, 0, 0, 1] 128, ofHextets [] 128, ofHextets [0, 0, 0, 0, 0, 0xffff] 96,
    ofHextets [0x64, 0xff9b, 1] 48, ofHextets [0x100] 64, ofHextets [0x2001] 23, ofHextets [0x2001, 0xdb8] 32,
    ofHextets [0x2002] 16, ofHextets [0x3fff] 20, ofHextets [0xfc00] 7, ofHextets [0xfe80] 10]

def private6Exceptions : List (IpNetwork 128) :=
  [ofHextets [0x2001, 1, 0, 0, 0, 0, 0, 1] 128, ofHextets [0x2001, 1, 0, 0, 0, 0, 0, 2] 128,
    ofHextets [0x2001, 3] 32, ofHextets [0x2001, 4, 0x112] 48, ofHextets [0x2001, 0x20] 28,
    ofHextets [0x2001, 0x30] 28]

/-- The IPv4 address of a mapped one. -/
def unmapped : IpAddress → IpAddress
  | v4 a => v4 a
  | v6 a => if a >>> 32 = 0xffff then v4 (a.setWidth 32) else v6 a

def isLoopback (ip : IpAddress) : Bool :=
  match ip.unmapped with
  | v4 a => (ofOctets [127] 8).contains a
  | v6 a => a == 1

def isPrivate (ip : IpAddress) : Bool :=
  match ip.unmapped with
  | v4 a => private4.any (·.contains a) && !private4Exceptions.any (·.contains a)
  | v6 a => private6.any (·.contains a) && !private6Exceptions.any (·.contains a)

def isLinkLocal (ip : IpAddress) : Bool :=
  match ip.unmapped with
  | v4 a => (ofOctets [169, 254] 16).contains a
  | v6 a => (ofHextets [0xfe80] 10).contains a

def isMulticast (ip : IpAddress) : Bool :=
  match ip.unmapped with
  | v4 a => (ofOctets [224] 4).contains a
  | v6 a => (ofHextets [0xff00] 8).contains a

/-- Not an address of the internet at large. -/
def isLocal (ip : IpAddress) : Bool := ip.isPrivate || ip.isLoopback || ip.isLinkLocal

/-! ### Text forms -/

/-- `_parse_octet`. -/
def readOctet (s : List Char) : Option ℕ :=
  if s = [] ∨ ¬s.all Char.isDigit ∨ 3 < s.length ∨ (s ≠ ['0'] ∧ s.head? = some '0') then none
  else
    let octet := s.foldl (fun n c => n * 10 + (c.toNat - '0'.toNat)) 0
    if 255 < octet then none else some octet

def readV4 (s : List Char) : Option (BitVec 32) :=
  match (s.splitOn '.').mapM readOctet with
  | some [a, b, c, d] => some (ofOctets [a, b, c, d] 32).address
  | _ => none

def hexDigit (c : Char) : Option ℕ :=
  if c.isDigit then some (c.toNat - '0'.toNat)
  else if 'a' ≤ c ∧ c ≤ 'f' then some (c.toNat - 'a'.toNat + 10)
  else if 'A' ≤ c ∧ c ≤ 'F' then some (c.toNat - 'A'.toNat + 10)
  else none

/-- `_parse_hextet`. -/
def readHextet (s : List Char) : Option ℕ :=
  if s = [] ∨ 4 < s.length then none
  else (s.mapM hexDigit).map fun digits => digits.foldl (fun n digit => n * 16 + digit) 0

/-- The parts between the colons, where an IPv4 address at the end becomes two of them. -/
def hextetTexts (parts : List (List Char)) : Option (List (List Char)) :=
  match parts.getLast? with
  | some last =>
    if '.' ∈ last then
      (readV4 last).map fun a =>
        parts.dropLast ++ [Nat.toDigits 16 (a.toNat / 65536), Nat.toDigits 16 (a.toNat % 65536)]
    else some parts
  | none => none

/-- The eight groups.  An empty part inside stands for the groups of zeros that are left out, and the text may only
begin or end with a colon there. -/
def expandHextets (parts : List (List Char)) : Option (List (List Char)) :=
  match (List.range parts.length).filter fun i => 0 < i ∧ i + 1 < parts.length ∧ parts[i]? = some [] with
  | [] => if parts.length = 8 then some parts else none
  | [skip] =>
    let high := if parts.head? = some [] ∧ skip = 1 then [] else parts.take skip
    let low := if parts.getLast? = some [] ∧ skip + 2 = parts.length then [] else parts.drop (skip + 1)
    if high.length + low.length < 8 then
      some (high ++ List.replicate (8 - (high.length + low.length)) ['0'] ++ low)
    else none
  | _ => none

def readV6 (s : List Char) : Option (BitVec 128) :=
  match partition '%' s with
  | (addr, scope) =>
    let parts := addr.splitOn ':'
    if scope = some [] ∨ '%' ∈ scope.getD [] ∨ parts.length < 3 then none
    else
      match hextetTexts parts with
      | none => none
      | some parts =>
        if 9 < parts.length then none
        else
          (expandHextets parts).bind fun parts => (parts.mapM readHextet).map fun hextets =>
            (ofHextets hextets 128).address

/-- `ip_address` on a text. -/
def read (s : List Char) : Option IpAddress :=
  match readV4 s with
  | some a => some (v4 a)
  | none => (readV6 s).map v6

end IpAddress

/-- The network at one time. -/
structure Internet where
  /-- The addresses that a host is resolved to, which an address resolves to as well. -/
  resolve : List Char → List IpAddress
  accepts : IpAddress → Int → Bool

/-- The first address that accepts. -/
def Internet.connect (net : Internet) (host : List Char) (port : Int) : Option (IpAddress × Int) :=
  ((net.resolve host).find? (net.accepts · port)).map (·, port)

namespace Internet

theorem connect_eq_some_iff {net : Internet} {host : List Char} {p : Int} {ip : IpAddress} {port : Int} :
    net.connect host p = some (ip, port) ↔ ip ∈ (net.resolve host).find? (net.accepts · p) ∧ p = port := by
  rw [Internet.connect, Option.map_eq_some_iff]
  constructor
  · rintro ⟨a, ha, heq⟩
    obtain ⟨rfl, rfl⟩ := Prod.mk.inj heq
    exact ⟨ha, rfl⟩
  · rintro ⟨hip, rfl⟩
    exact ⟨ip, hip, rfl⟩

theorem mem_resolve_of_connect {net : Internet} {host : List Char} {p port : Int} {ip : IpAddress}
    (h : net.connect host p = some (ip, port)) : ip ∈ net.resolve host ∧ port = p := by
  obtain ⟨hfind, rfl⟩ := connect_eq_some_iff.1 h
  exact ⟨List.mem_of_find?_eq_some hfind, rfl⟩

theorem connect_eq_none {net : Internet} {port : Int} (h : ∀ ip, net.accepts ip port = false) (host : List Char) :
    net.connect host port = none := by
  rw [Internet.connect, List.find?_eq_none.2 fun ip _ => by rw [h ip]; exact Bool.noConfusion, Option.map_none]

end Internet
