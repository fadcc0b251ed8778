import FiduciaMessaging.Connect.IpAddr
import FiduciaMessaging.Foundations.Text

/-! The TLS decision for a connection attempt, from the server list and the two
environment switches. -/
namespace FiduciaMessaging

open Text

inductive TlsPolicy where
  | required
  | loopbackPlaintext
  | plaintextOptedOut
  deriving DecidableEq

def isAsciiDigit (c : Char) : Bool := '0' ≤ c && c ≤ '9'

/- The end of `host_of`: what the brackets enclose, or the text without its port. A bare
IPv6 literal has no port to strip. -/
def withoutBracketsAndPort (rest : List Char) : List Char :=
  match rest with
  | '[' :: inner => inner.takeWhile (· != ']')
  | _ =>
    if (parseIpAddr rest).isSome then rest
    else
      match rsplitOnce ':' rest with
      | some (host, port) => if !port.isEmpty && port.all isAsciiDigit then host else rest
      | none => rest

/- The scheme, the userinfo, then the path or query are cut off, in this order. -/
def hostOf (url : List Char) : List Char :=
  let rest := (splitOnce [':', '/', '/'] url).elim url (·.2)
  let rest := afterLast '@' rest
  let rest := rest.takeWhile (fun c => c != '/' && c != '?')
  withoutBracketsAndPort rest

/- `eq_ignore_ascii_case`. -/
def eqIgnoreAsciiCase (a b : List Char) : Bool := a.map Char.toLower == b.map Char.toLower

def isLoopbackHost (host : List Char) : Bool :=
  !host.isEmpty && (eqIgnoreAsciiCase host "localhost".toList ||
    (parseIpAddr host).elim false IpAddr.isLoopback)

/- The non-blank entries of the comma-separated list. -/
def servers (natsUrl : String) : List (List Char) :=
  ((natsUrl.toList.splitOn ',').map trim).filter (fun server => !server.isEmpty)

def allHostsLoopback (natsUrl : String) : Bool := loop false (servers natsUrl)
where
  loop (any : Bool) : List (List Char) → Bool
  | [] => any
  | server :: rest => if !isLoopbackHost (hostOf server) then false else loop true rest

def decideTlsPolicy (natsUrl : String) (requireTls allowPlaintext : Bool) : TlsPolicy :=
  if requireTls then .required
  else if allHostsLoopback natsUrl then .loopbackPlaintext
  else if allowPlaintext then .plaintextOptedOut
  else .required

theorem allHostsLoopback_loop {any : Bool} {list : List (List Char)} :
    allHostsLoopback.loop any list = true ↔
      (any = true ∨ list ≠ []) ∧
      ∀ server ∈ list, isLoopbackHost (hostOf server) = true := by
  induction list generalizing any with
  | nil => simp [allHostsLoopback.loop]
  | cons server rest ih =>
    unfold allHostsLoopback.loop
    cases loopback : isLoopbackHost (hostOf server) with
    | false => simp [loopback]
    | true => simp [loopback, ih]

theorem allHostsLoopback_iff {natsUrl : String} : allHostsLoopback natsUrl = true ↔
    servers natsUrl ≠ [] ∧ ∀ server ∈ servers natsUrl,
      isLoopbackHost (hostOf server) = true := by
  rw [allHostsLoopback, allHostsLoopback_loop]
  simp

theorem decideTlsPolicy_loopback {natsUrl : String} {allowPlaintext : Bool} :
    decideTlsPolicy natsUrl false allowPlaintext = .loopbackPlaintext ↔
      allHostsLoopback natsUrl = true := by
  unfold decideTlsPolicy
  cases allHostsLoopback natsUrl <;> cases allowPlaintext <;> simp

/- No loopback host has a character outside address literals and `localhost`. -/
theorem isLoopbackHost_chars {host : List Char} (loopback : isLoopbackHost host = true) :
    ∀ c ∈ host, IpChar c ∨ c.toLower ∈ "localhost".toList := by
  unfold isLoopbackHost at loopback
  rcases Bool.or_eq_true_iff.mp (Bool.and_eq_true_iff.mp loopback).2 with named | literal
  · intro c member
    right
    have same : host.map Char.toLower = "localhost".toList.map Char.toLower := eq_of_beq named
    have inside : c.toLower ∈ host.map Char.toLower := List.mem_map_of_mem member
    rw [same] at inside
    exact (show "localhost".toList.map Char.toLower = "localhost".toList by decide) ▸ inside
  · cases parsed : parseIpAddr host with
    | none => simp [parsed] at literal
    | some address =>
      intro c member
      exact .inl (parseIpAddr_chars parsed c member)

end FiduciaMessaging
