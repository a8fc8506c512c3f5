import LanguageRelay.Text.Blank
/-!
# Hosts

What may stand between the slashes of an authority and its path. Square
brackets enclose an IPv6 address, or an address of a later version marked
`v`; nothing may precede them, and only a port may follow. Characters whose
compatibility form holds a delimiter are refused.
-/

namespace LanguageRelay

namespace Host

/-- Characters beyond ASCII whose compatibility form holds a slash, a
question mark, a number sign, an at sign or a colon (Unicode 14). -/
def hiddenDelimiters : List Nat :=
  [8263, 8264, 8265, 8448, 8449, 8453, 8454, 10868, 65043, 65046, 65109, 65110, 65119, 65131,
   65283, 65295, 65306, 65311, 65312]

/-- A hexadecimal digit of either case. -/
def isHexDigit (c : Char) : Bool :=
  ('0' ≤ c && c ≤ '9') || ('a' ≤ c && c ≤ 'f') || ('A' ≤ c && c ≤ 'F')

/-- A decimal digit. -/
def isDigit (c : Char) : Bool := '0' ≤ c && c ≤ '9'

/-- The text before the first `sep` and, if there is one, the text after it. -/
def cut (sep : Char) : List Char → List Char × Option (List Char)
  | [] => ([], none)
  | c :: rest =>
    if c == sep then ([], some rest)
    else
      let (before, after) := cut sep rest
      (c :: before, after)

/-- One number of an IPv4 address: at most three digits, no leading zero, at
most 255. -/
def isOctet (text : List Char) : Bool :=
  !text.isEmpty && text.all isDigit && text.length ≤ 3
    && (text == ['0'] || text.head? != some '0')
    && text.foldl (fun v c => 10 * v + (c.toNat - 48)) 0 ≤ 255

/-- Four numbers with points between them. -/
def isIPv4 (text : List Char) : Bool :=
  let octets := splitAll (· == '.') text
  octets.length == 4 && octets.all isOctet

/-- One group of an IPv6 address. -/
def isGroup (text : List Char) : Bool :=
  !text.isEmpty && text.all isHexDigit && text.length ≤ 4

/-- The places of empty groups other than the first and the last. -/
def innerGaps (groups : List (List Char)) : List Nat :=
  (List.range groups.length).filter fun i =>
    0 < i && i + 1 < groups.length && (groups[i]?.getD []).isEmpty

/-- Groups with colons between them, one run of zeros left out. -/
def areGroups (groups : List (List Char)) : Bool :=
  if 9 < groups.length then false
  else
    match innerGaps groups with
    | [] => groups.length == 8 && groups.all isGroup
    | [gap] =>
      let high := groups.take gap
      let low := groups.drop (gap + 1)
      let highOpen := high.head? == some []
      let lowOpen := low.getLast? == some []
      (if highOpen then high.length == 1 else high.all isGroup)
        && (if lowOpen then low.length == 1 else low.all isGroup)
        && (if highOpen then 0 else high.length) + (if lowOpen then 0 else low.length) < 8
    | _ => false

/-- An IPv6 address, with a zone after a percent sign allowed. -/
def isIPv6 (text : List Char) : Bool :=
  let (address, zone) := cut '%' text
  let zoneOk :=
    match zone with
    | none => true
    | some z => !z.isEmpty && !z.contains '%'
  let groups := splitAll (· == ':') address
  let last := groups.getLast?.getD []
  zoneOk && 3 ≤ groups.length &&
    (if last.contains '.' then
      isIPv4 last && areGroups (groups.dropLast ++ [['0'], ['0']])
    else areGroups groups)

/-- An address of a later version: `v`, hexadecimal digits, a point and
more. -/
def isFuture (text : List Char) : Bool :=
  match text with
  | 'v' :: rest =>
    let version := rest.takeWhile isHexDigit
    match rest.dropWhile isHexDigit with
    | '.' :: tail => !version.isEmpty && !tail.isEmpty
    | _ => false
  | _ => false

/-- What brackets may enclose. -/
def isBracketed (text : List Char) : Bool :=
  if text.head? == some 'v' then isFuture text else isIPv6 text

/-- The part of an authority after its last at sign. -/
def withoutUser (authority : List Char) : List Char :=
  (authority.reverse.takeWhile (· != '@')).reverse

/-- The host and port of an authority with brackets are well formed. -/
def bracketsOk (authority : List Char) : Bool :=
  match cut '[' (withoutUser authority) with
  | (before, some inside) =>
    let (host, after) := cut ']' inside
    before.isEmpty && ((after.getD []).isEmpty || (after.getD []).head? == some ':')
      && isBracketed host
  | (_, none) => isBracketed (cut ':' (withoutUser authority)).1

/-- An authority is well formed. -/
def isAuthority (authority : List Char) : Bool :=
  let opens := authority.contains '['
  let closes := authority.contains ']'
  opens == closes && (!opens || bracketsOk authority)
    && !authority.any fun c => hiddenDelimiters.contains c.toNat

end Host

end LanguageRelay
