import FiduciaMessaging.Foundations.Scanner

/-! The `IpAddr` of the standard library: its parser and its loopback test. -/
namespace FiduciaMessaging

open Scanner

/- Four octets. -/
structure Ipv4Addr where
  a : Nat
  b : Nat
  c : Nat
  d : Nat

/- Eight 16-bit groups. -/
structure Ipv6Addr where
  segments : List Nat
  deriving DecidableEq

inductive IpAddr where
  | v4 (address : Ipv4Addr)
  | v6 (address : Ipv6Addr)

def readIpv4Addr : Reader Ipv4Addr := do
  let octet : Reader Nat := readNumber 10 3 false 256
  let a ← readSeparator '.' 0 octet
  let b ← readSeparator '.' 1 octet
  let c ← readSeparator '.' 2 octet
  let d ← readSeparator '.' 3 octet
  return ⟨a, b, c, d⟩

def bigEndian16 (high low : Nat) : Nat := high * 256 + low

/- Up to `limit` groups from position `index` on, and whether the last two came from an
embedded IPv4 address, for which two groups have to be left. -/
def readGroups : (limit index : Nat) → List Char → (List Nat × Bool) × List Char
  | 0, _, text => (([], false), text)
  | limit + 1, index, text =>
    let ipv4 := if 0 < limit then readSeparator ':' index readIpv4Addr text else none
    match ipv4 with
    | some (address, rest) =>
      (([bigEndian16 address.a address.b,
        bigEndian16 address.c address.d], true), rest)
    | none =>
      match readSeparator ':' index (readNumber 16 4 true 65536) text with
      | some (group, rest) =>
        let more := readGroups limit (index + 1) rest
        ((group :: more.1.1, more.1.2), more.2)
      | none => (([], false), text)

/- All eight groups, or a front part, `::` and a back part of at most the groups left
but one. -/
def readIpv6Addr : Reader Ipv6Addr := do
  let (head, headIpv4) ← fun text => some (readGroups 8 0 text)
  if head.length = 8 then return ⟨head⟩
  if headIpv4 then failure
  readGivenChar ':'
  readGivenChar ':'
  let (tail, _) ← fun text => some (readGroups (8 - (head.length + 1)) 0 text)
  return ⟨head ++ List.replicate (8 - head.length - tail.length) 0 ++ tail⟩

def readIpAddr : Reader IpAddr := fun text =>
  match readIpv4Addr text with
  | some (address, rest) => some (.v4 address, rest)
  | none => (readIpv6Addr text).map (fun read => (.v6 read.1, read.2))

/- `str::parse::<IpAddr>`: the whole text has to be read. -/
def parseIpAddr (text : List Char) : Option IpAddr :=
  match readIpAddr text with
  | some (address, []) => some address
  | _ => none

def IpAddr.isLoopback : IpAddr → Bool
  | .v4 address => address.a == 127
  | .v6 address => address.segments == [0, 0, 0, 0, 0, 0, 0, 1]

/- What an address literal is made of. -/
def IpChar (c : Char) : Prop := (toDigit 16 c).isSome = true ∨ c = '.' ∨ c = ':'

theorem decimal_ipChar (c : Char) (digit : (toDigit 10 c).isSome = true) : IpChar c := by
  left
  unfold toDigit at *
  grind

theorem colon_ipChar : IpChar ':' := .inr (.inr rfl)

theorem readIpv4Addr_within : Within IpChar readIpv4Addr := by
  have octet (index : Nat) :
      Within IpChar (readSeparator '.' index (readNumber 10 3 false 256)) :=
    readSeparator_within (.inr (.inl rfl)) (readNumber_within decimal_ipChar) index
  unfold readIpv4Addr
  exact (octet 0).bind fun _ => (octet 1).bind fun _ => (octet 2).bind fun _ =>
    (octet 3).bind fun _ => .pure _

theorem readGroups_within (limit index : Nat) (text : List Char) :
    ∃ used, text = used ++ (readGroups limit index text).2 ∧ ∀ c ∈ used, IpChar c := by
  induction limit generalizing index text with
  | zero => exact ⟨[], rfl, by simp⟩
  | succ limit ih =>
    unfold readGroups
    dsimp only
    split
    · rename_i address rest embedded
      split at embedded
      · exact readSeparator_within colon_ipChar readIpv4Addr_within index _ _ _ embedded
      · contradiction
    · split
      · rename_i group rest read
        obtain ⟨used, split, inside⟩ := readSeparator_within colon_ipChar
          (readNumber_within (fun c digit => Or.inl digit)) index _ _ _ read
        obtain ⟨more, split', inside'⟩ := ih (index + 1) rest
        refine ⟨used ++ more, by rw [List.append_assoc, ← split', split], ?_⟩
        intro c member
        exact (List.mem_append.mp member).elim (inside c) (inside' c)
      · exact ⟨[], rfl, by simp⟩

theorem groups_within (limit : Nat) :
    Within IpChar (fun text => some (readGroups limit 0 text) : Reader (List Nat × Bool)) := by
  intro text value rest read
  obtain ⟨used, split, inside⟩ := readGroups_within limit 0 text
  rw [Option.some.inj read] at split
  exact ⟨used, split, inside⟩

theorem failure_within {α : Type} {P : Char → Prop} : Within P (failure : Reader α) := by
  intro text value rest read
  cases read

theorem readIpv6Addr_within : Within IpChar readIpv6Addr := by
  have colon : Within IpChar (readGivenChar ':') := readGivenChar_within colon_ipChar
  unfold readIpv6Addr
  refine (groups_within 8).bind ?_
  rintro ⟨head, headIpv4⟩
  dsimp only
  split
  · exact .pure _
  · have back : Within IpChar (do
        readGivenChar ':'
        readGivenChar ':'
        let (tail, _) ← fun text => some (readGroups (8 - (head.length + 1)) 0 text)
        return (⟨head ++ List.replicate (8 - head.length - tail.length) 0 ++ tail⟩ :
          Ipv6Addr)) :=
      colon.bind fun _ => colon.bind fun _ => (groups_within _).bind fun _ => .pure _
    split
    · exact failure_within.bind (fun _ => back)
    · exact back

theorem parseIpAddr_chars {text : List Char} {address : IpAddr}
    (parsed : parseIpAddr text = some address) : ∀ c ∈ text, IpChar c := by
  unfold parseIpAddr at parsed
  split at parsed
  · rename_i found read
    unfold readIpAddr at read
    split at read
    · rename_i v4 rest inner
      obtain ⟨_, rfl⟩ := Prod.mk.inj (Option.some.inj read)
      obtain ⟨used, split, inside⟩ := readIpv4Addr_within _ _ _ inner
      rw [split, List.append_nil]
      exact inside
    · obtain ⟨⟨v6, rest⟩, inner, same⟩ := Option.map_eq_some_iff.mp read
      obtain ⟨_, rfl⟩ := Prod.mk.inj same
      obtain ⟨used, split, inside⟩ := readIpv6Addr_within _ _ _ inner
      rw [split, List.append_nil]
      exact inside
  · contradiction

end FiduciaMessaging
