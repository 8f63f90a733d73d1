/-
Socket addresses: where a server listens.

The host is an address of either family, never a name. One of the longer family stands
in brackets, may leave out one run of zero groups, may end in an address of the shorter
family and may name a scope. Written back, the longest run of zeros is left out, the
first of them if there are several.
-/
import BarArchive.Text.Digits

namespace BarArchive

/-- An address and the number of a service there. -/
inductive SocketAddress where
  | v4 (octets : List UInt8) (service : UInt16)
  | v6 (groups : List UInt16) (scope : UInt32) (service : UInt16)
deriving DecidableEq

namespace SocketAddress

/-! ### Reading -/

/-- What follows a given character. -/
def given? (c : Char) : List Char → Option (List Char)
  | c' :: rest => if c' = c then some rest else none
  | [] => none

/-- The digits in front, the number below `bound` that they write, and what follows. -/
def number? (value? : Char → Option Nat) (base bound : Nat) (cs : List Char) :
    Option (List Char × Nat × List Char) :=
  let digits := cs.takeWhile fun c => (value? c).isSome
  let n := digits.foldl (fun n c => base * n + (value? c).getD 0) 0
  if digits.isEmpty ∨ bound ≤ n then none else some (digits, n, cs.drop digits.length)

/-- A decimal number, with or without leading zeros. -/
def decimal? (bound : Nat) (cs : List Char) : Option (Nat × List Char) :=
  (number? Digits.value? 10 bound cs).map (·.2)

/-- One octet: up to three digits, the first of which is not a zero unless it is the only one. -/
def octet? (cs : List Char) : Option (UInt8 × List Char) := do
  let (digits, n, rest) ← number? Digits.value? 10 256 cs
  if 3 < digits.length ∨ (digits.head? = some '0' ∧ 1 < digits.length) then none
  else return (n.toUInt8, rest)

/-- One group: up to four hexadecimal digits. -/
def group? (cs : List Char) : Option (UInt16 × List Char) := do
  let (digits, n, rest) ← number? Digits.hexValue? 16 65536 cs
  if 4 < digits.length then none else return (n.toUInt16, rest)

/-- Four octets with dots between them. -/
def octets? (cs : List Char) : Option (List UInt8 × List Char) := do
  let (a, cs) ← octet? cs
  let (b, cs) ← (given? '.' cs).bind octet?
  let (c, cs) ← (given? '.' cs).bind octet?
  let (d, cs) ← (given? '.' cs).bind octet?
  return ([a, b, c, d], cs)

/-- The two groups of four octets. -/
def pairs : List UInt8 → List UInt16
  | a :: b :: rest => (a.toUInt16 <<< 8 ||| b.toUInt16) :: pairs rest
  | _ => []

/--
Groups with colons between them, `room` of them at most, and what follows.

The last two may be written as octets, after which there are no more; that is told, too.
-/
def groups : (room : Nat) → (isFirst : Bool) → List Char → List UInt16 × Bool × List Char
  | 0, _, cs => ([], false, cs)
  | room + 1, isFirst, cs =>
    let start := if isFirst then some cs else given? ':' cs
    match if room = 0 then none else start.bind octets? with
    | some (octets, rest) => (pairs octets, true, rest)
    | none =>
      match start.bind group? with
      | none => ([], false, cs)
      | some (g, rest) =>
        let (gs, endsInOctets, rest) := groups room false rest
        (g :: gs, endsInOctets, rest)

/-- The number of groups. -/
def groupCount : Nat := 8

/-- Eight groups, some of which may be left out. -/
def allGroups? (cs : List Char) : Option (List UInt16 × List Char) :=
  let (front, endsInOctets, rest) := groups groupCount true cs
  if front.length = groupCount then some (front, rest)
  else if endsInOctets then none
  else do
    let rest ← given? ':' rest
    let rest ← given? ':' rest
    let (back, _, rest) := groups (groupCount - 1 - front.length) true rest
    return (front ++ List.replicate (groupCount - front.length - back.length) 0 ++ back, rest)

/-- The number of a service after a colon, with nothing behind it. -/
def service? (cs : List Char) : Option UInt16 := do
  let (n, rest) ← decimal? 65536 (← given? ':' cs)
  if rest.isEmpty then return n.toUInt16 else none

/-- A scope after a percent sign, zero if there is none. -/
def scope (cs : List Char) : UInt32 × List Char :=
  match (given? '%' cs).bind (decimal? (2 ^ 32)) with
  | some (n, rest) => (n.toUInt32, rest)
  | none => (0, cs)

/-- An address of the shorter family. -/
def short? (cs : List Char) : Option SocketAddress := do
  let (octets, rest) ← octets? cs
  return .v4 octets (← service? rest)

/-- An address of the longer family. -/
def long? (cs : List Char) : Option SocketAddress := do
  let (gs, rest) ← allGroups? (← given? '[' cs)
  let (scope, rest) := scope rest
  return .v6 gs scope (← service? (← given? ']' rest))

/-- The address that a text writes. -/
def ofText? (s : String) : Option SocketAddress := (short? s.toList).orElse fun _ => long? s.toList

/-! ### Writing -/

/-- Octets with dots between them. -/
def octetsText (octets : List UInt8) : String := ".".intercalate (octets.map fun o => o.toNat.repr)

/-- Groups with colons between them. -/
def groupsText (gs : List UInt16) : String := ":".intercalate (gs.map fun g => Digits.hex 1 g.toNat)

/-- How many zero groups there are from a place on. -/
def zerosFrom (gs : List UInt16) (place : Nat) : Nat := ((gs.drop place).takeWhile (· == 0)).length

/-- The place of the first of the longest runs of zeros, and its length. -/
def longestZeros (gs : List UInt16) : Nat × Nat :=
  (List.range gs.length).foldl (fun best place =>
    if best.2 < zerosFrom gs place then (place, zerosFrom gs place) else best) (0, 0)

/-- The octets of two groups. -/
def halves (gs : List UInt16) : List UInt8 := gs.flatMap fun (g : UInt16) => [(g >>> 8).toUInt8, g.toUInt8]

/-- The text of the groups of an address. -/
def hostText (gs : List UInt16) : String :=
  if gs.take 6 = [0, 0, 0, 0, 0, 0xFFFF] then "::ffff:" ++ octetsText (halves (gs.drop 6))
  else
    let (place, n) := longestZeros gs
    if n ≤ 1 then groupsText gs
    else groupsText (gs.take place) ++ "::" ++ groupsText (gs.drop (place + n))

/-- The text of an address. -/
def toText : SocketAddress → String
  | v4 octets service => octetsText octets ++ ":" ++ service.toNat.repr
  | v6 gs scope service =>
    "[" ++ hostText gs ++ (if scope = 0 then "" else "%" ++ scope.toNat.repr) ++ "]:" ++ service.toNat.repr

end SocketAddress

end BarArchive
