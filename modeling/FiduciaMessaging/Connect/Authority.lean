import FiduciaMessaging.Connect.Policy

/-! The host of a server entry by the URI grammar, against the one `host_of`
finds. They part where a character that delimits one piece occurs in another:
the userinfo is cut off before the path is. -/
namespace FiduciaMessaging

open Text

/- A letter, then letters, digits, `+`, `-` and `.`. -/
def isScheme : List Char → Bool
  | [] => false
  | c :: rest => c.isAlpha && rest.all (fun c => c.isAlphanum || c == '+' || c == '-' || c == '.')

def afterScheme (url : List Char) : List Char :=
  match splitOnce [':', '/', '/'] url with
  | some (scheme, rest) => if isScheme scheme then rest else url
  | none => url

def endsAuthority (c : Char) : Bool := c == '/' || c == '?' || c == '#'

def authority (url : List Char) : List Char :=
  (afterScheme url).takeWhile (fun c => !endsAuthority c)

def hostAndPort (url : List Char) : List Char := afterLast '@' (authority url)

/- A port may be empty; a bare IPv6 literal has none. -/
def withoutPort (text : List Char) : List Char :=
  if (parseIpAddr text).isSome then text
  else
    match rsplitOnce ':' text with
    | some (host, port) => if port.all isAsciiDigit then host else text
    | none => text

def withoutBrackets : List Char → List Char
  | '[' :: inner => if inner.getLast? = some ']' then inner.dropLast else '[' :: inner
  | text => text

def rfcHost (url : List Char) : List Char := withoutBrackets (withoutPort (hostAndPort url))

/- Plaintext without an opt-out is for loopback servers only. -/
structure PlaintextOnlyLoopback (natsUrl : String) : Prop where
  plaintext : ∀ allowPlaintext,
    decideTlsPolicy natsUrl false allowPlaintext = .loopbackPlaintext →
      servers natsUrl ≠ [] ∧ ∀ server ∈ servers natsUrl,
        isLoopbackHost (rfcHost server) = true
  remote : (∃ server ∈ servers natsUrl, isLoopbackHost (rfcHost server) = false) →
    decideTlsPolicy natsUrl false false = .required

def IsPort (text : List Char) : Prop :=
  text = [] ∨ ∃ digits, text = ':' :: digits ∧ digits.all isAsciiDigit = true

/- The first `://` ends a scheme, and no `@` follows the authority. -/
structure Delimited (url : List Char) : Prop where
  scheme : ∀ scheme rest, splitOnce [':', '/', '/'] url = some (scheme, rest) →
    isScheme scheme = true
  userinfo : '@' ∉ (afterScheme url).dropWhile (fun c => !endsAuthority c)

/- A bracketed host is closed, and nothing but a port follows. -/
def Closed (url : List Char) : Prop :=
  ∀ inner, hostAndPort url = '[' :: inner →
    ∃ address port, inner = address ++ ']' :: port ∧ ']' ∉ address ∧ IsPort port

variable {url text address port extra : List Char} {c : Char}

theorem loopback_absent (loopback : isLoopbackHost text = true) (address : ¬ IpChar c)
    (name : c.toLower ∉ "localhost".toList) : c ∉ text := by
  intro member
  rcases isLoopbackHost_chars loopback c member with literal | named
  · exact address literal
  · exact name named

theorem not_ipChar (digit : (Scanner.toDigit 16 c).isSome = false) (dot : c ≠ '.')
    (colon : c ≠ ':') :
    ¬ IpChar c := by
  rintro (hex | rfl | rfl)
  · rw [digit] at hex
    contradiction
  · exact dot rfl
  · exact colon rfl

theorem hash_absent (loopback : isLoopbackHost text = true) : '#' ∉ text :=
  loopback_absent loopback (not_ipChar (by decide) (by decide) (by decide)) (by decide)

theorem parse_none (member : c ∈ text) (foreign : ¬ IpChar c) : parseIpAddr text = none := by
  cases parsed : parseIpAddr text with
  | none => rfl
  | some address => exact absurd (parseIpAddr_chars parsed c member) foreign

theorem digit_ne (digits : text.all isAsciiDigit = true) (other : isAsciiDigit c = false) :
    c ∉ text := by
  intro member
  rw [List.all_eq_true.mp digits c member] at other
  contradiction

theorem getLast_append_singleton : (text ++ [c]).getLast? = some c := by simp

theorem withoutBrackets_enclosed : withoutBrackets ('[' :: (address ++ [']'])) = address := by
  simp [withoutBrackets]

theorem withoutBrackets_bare (bare : text.head? ≠ some '[') : withoutBrackets text = text := by
  unfold withoutBrackets
  split
  · exact absurd rfl bare
  · rfl

/-- A bracketed address is what stands between the brackets, with or without a port. -/
theorem rfc_bracketed (tail : IsPort port) :
    withoutBrackets (withoutPort ('[' :: (address ++ ']' :: port))) = address := by
  have unparsed : parseIpAddr ('[' :: (address ++ ']' :: port)) = none :=
    parse_none List.mem_cons_self (not_ipChar (by decide) (by decide) (by decide))
  unfold withoutPort
  rw [unparsed, if_neg (by simp)]
  rcases tail with rfl | ⟨digits, rfl, all⟩
  · cases found : rsplitOnce ':' ('[' :: (address ++ [']'])) with
    | none => exact withoutBrackets_enclosed
    | some pieces =>
      obtain ⟨host, port⟩ := pieces
      obtain ⟨split, _⟩ := rsplitOnce_some.mp found
      have last : (host ++ ':' :: port).getLast? = some ']' := by
        rw [← split, ← List.cons_append]
        exact getLast_append_singleton
      have inside : ']' ∈ port := by
        cases port with
        | nil => simp at last
        | cons c port =>
          rw [List.getLast?_append, List.getLast?_cons_cons, List.getLast?_cons] at last
          have ends : (c :: port).getLast? = some ']' := by simpa [List.getLast?_cons] using last
          exact List.mem_of_getLast? ends
      have undigit : ¬ port.all isAsciiDigit = true := fun all => digit_ne all (by decide) inside
      simp only [if_neg undigit]
      exact withoutBrackets_enclosed
  · have found : rsplitOnce ':' ('[' :: (address ++ ']' :: ':' :: digits)) =
        some ('[' :: (address ++ [']']), digits) :=
      rsplitOnce_some.mpr ⟨by simp, digit_ne all (by decide)⟩
    simp only [found, if_pos all]
    exact withoutBrackets_enclosed

theorem bracketed (absent : ']' ∉ address) :
    withoutBracketsAndPort ('[' :: (address ++ ']' :: extra)) = address := by
  have free : ∀ c ∈ address, (c != ']') = true := by
    intro c member
    simpa using fun same : c = ']' => absent (same ▸ member)
  simp only [withoutBracketsAndPort]
  rw [List.takeWhile_append_of_pos free]
  simp

theorem withoutBracketsAndPort_bare (bare : text.head? ≠ some '[') : withoutBracketsAndPort text =
    if (parseIpAddr text).isSome then text
    else match rsplitOnce ':' text with
      | some (host, port) => if !port.isEmpty && port.all isAsciiDigit then host else text
      | none => text := by
  unfold withoutBracketsAndPort
  split
  · exact absurd rfl bare
  · rfl

theorem loopback_colon (loopback : isLoopbackHost text = true)
    (unparsed : parseIpAddr text = none) :
    ':' ∉ text := by
  intro member
  have named : eqIgnoreAsciiCase text "localhost".toList = true := by
    simpa [isLoopbackHost, unparsed] using (Bool.and_eq_true_iff.mp loopback).2
  have same : text.map Char.toLower = "localhost".toList.map Char.toLower := eq_of_beq named
  have inside : ':' ∈ text.map Char.toLower := List.mem_map.mpr ⟨':', member, rfl⟩
  rw [same] at inside
  exact absurd inside (by decide)

/-- Without brackets both ways of dropping the port agree on a loopback host. -/
theorem bare_loopback (bare : text.head? ≠ some '[')
    (loopback : isLoopbackHost (withoutBracketsAndPort text) = true) :
    isLoopbackHost (withoutBrackets (withoutPort text)) = true := by
  rw [withoutBracketsAndPort_bare bare] at loopback
  unfold withoutPort
  cases parsed : parseIpAddr text with
  | some address =>
    rw [parsed] at loopback
    simpa [withoutBrackets_bare bare] using loopback
  | none =>
    rw [parsed] at loopback
    simp only [Option.isSome_none, Bool.false_eq_true, if_false] at *
    cases found : rsplitOnce ':' text with
    | none =>
      rw [found] at loopback
      simpa [withoutBrackets_bare bare] using loopback
    | some pieces =>
      obtain ⟨host, port⟩ := pieces
      obtain ⟨rfl, _⟩ := rsplitOnce_some.mp found
      have unnamed : isLoopbackHost (host ++ ':' :: port) = false := by
        by_contra other
        exact loopback_colon (by simpa using other) parsed (by simp)
      have bare' : host.head? ≠ some '[' := by
        cases host with
        | nil => simp
        | cons c host => simpa using bare
      simp only [found] at loopback ⊢
      split at loopback
      · rename_i number
        rw [if_pos (Bool.and_eq_true_iff.mp number).2, withoutBrackets_bare bare']
        exact loopback
      · rw [unnamed] at loopback
        contradiction

/-- A fragment that `host_of` leaves on an unbracketed host never looks like loopback. -/
theorem fragment_remote (bare : (text ++ '#' :: extra).head? ≠ some '[') :
    isLoopbackHost (withoutBracketsAndPort (text ++ '#' :: extra)) = false := by
  by_contra other
  have loopback : isLoopbackHost (withoutBracketsAndPort (text ++ '#' :: extra)) = true := by
    simpa using other
  have unparsed : parseIpAddr (text ++ '#' :: extra) = none :=
    parse_none (c := '#') (by simp) (not_ipChar (by decide) (by decide) (by decide))
  refine hash_absent loopback ?_
  rw [withoutBracketsAndPort_bare bare, unparsed]
  simp only [Option.isSome_none, Bool.false_eq_true, if_false]
  cases found : rsplitOnce ':' (text ++ '#' :: extra) with
  | none => simp
  | some pieces =>
    obtain ⟨host, port⟩ := pieces
    obtain ⟨split, _⟩ := rsplitOnce_some.mp found
    dsimp only
    split
    · rename_i number
      have inside : '#' ∈ host ++ ':' :: port := by
        rw [← split]
        simp
      have undigit := digit_ne (Bool.and_eq_true_iff.mp number).2 (c := '#') (by decide)
      simpa [undigit] using inside
    · simp

/-- In a delimited entry `host_of` is left with the host, its port and perhaps a fragment. -/
theorem hostOf_delimited (delimited : Delimited url) : ∃ extra,
    (extra = [] ∨ ∃ fragment, extra = '#' :: fragment) ∧
      hostOf url = withoutBracketsAndPort (hostAndPort url ++ extra) := by
  have schemes : (splitOnce [':', '/', '/'] url).elim url (·.2) = afterScheme url := by
    unfold afterScheme
    cases found : splitOnce [':', '/', '/'] url with
    | none => rfl
    | some pieces =>
      obtain ⟨scheme, rest⟩ := pieces
      simp [delimited.scheme scheme rest found]
  let tail := (afterScheme url).dropWhile (fun c => !endsAuthority c)
  have split : afterScheme url = authority url ++ tail := List.takeWhile_append_dropWhile.symm
  have cut : afterLast '@' (afterScheme url) = hostAndPort url ++ tail := by
    rw [split, afterLast_append delimited.userinfo]
    rfl
  have inside : ∀ c ∈ hostAndPort url, (c != '/' && c != '?') = true := by
    intro c member
    have free := List.mem_takeWhile_imp ((afterLast_suffix '@' (authority url)).subset member)
    simp only [endsAuthority, Bool.not_eq_true', Bool.or_eq_false_iff] at free
    simp [bne, free.1.1, free.1.2]
  refine ⟨tail.takeWhile (fun c => c != '/' && c != '?'), ?_, ?_⟩
  · cases rest : tail with
    | nil => exact .inl rfl
    | cons c more =>
      have stops : endsAuthority c = true := by
        have head := List.head?_dropWhile_not (fun c => !endsAuthority c) (afterScheme url)
        rw [show (afterScheme url).dropWhile (fun c => !endsAuthority c) = c :: more from rest]
          at head
        simpa using head
      simp only [endsAuthority, Bool.or_eq_true, beq_iff_eq] at stops
      rcases stops with (rfl | rfl) | rfl
      · exact .inl (by simp)
      · exact .inl (by simp)
      · exact .inr ⟨_, List.takeWhile_cons_of_pos (by decide)⟩
  · unfold hostOf
    simp only [schemes, cut, List.takeWhile_append_of_pos inside]

/-- A delimited entry that `host_of` takes for loopback is loopback. -/
theorem delimited_loopback (delimited : Delimited url) (closed : Closed url)
    (loopback : isLoopbackHost (hostOf url) = true) :
    isLoopbackHost (rfcHost url) = true := by
  obtain ⟨extra, shape, host⟩ := hostOf_delimited delimited
  rw [host] at loopback
  unfold rfcHost
  by_cases bracket : ∃ inner, hostAndPort url = '[' :: inner
  · obtain ⟨inner, text⟩ := bracket
    obtain ⟨address, port, rfl, absent, isPort⟩ := closed inner text
    rw [text, List.cons_append, List.append_assoc, List.cons_append, bracketed absent] at loopback
    rw [text, rfc_bracketed isPort]
    exact loopback
  · have bare : (hostAndPort url).head? ≠ some '[' := by
      intro first
      obtain ⟨inner, text⟩ := List.head?_eq_some_iff.mp first
      exact bracket ⟨inner, text⟩
    rcases shape with rfl | ⟨fragment, rfl⟩
    · rw [List.append_nil] at loopback
      exact bare_loopback bare loopback
    · have bare' : (hostAndPort url ++ '#' :: fragment).head? ≠ some '[' := by
        cases text : hostAndPort url with
        | nil => simp
        | cons c inner => simpa [text] using bare
      rw [fragment_remote bare'] at loopback
      contradiction

theorem withoutBrackets_loopback {inner : List Char}
    (loopback : isLoopbackHost (withoutBrackets ('[' :: inner)) = true) :
    ∃ address, inner = address ++ [']'] ∧ ']' ∉ address := by
  simp only [withoutBrackets] at loopback
  split at loopback
  · rename_i last
    refine ⟨inner.dropLast, (List.dropLast_append_getLast? _ last).symm, ?_⟩
    exact loopback_absent loopback (not_ipChar (by decide) (by decide) (by decide)) (by decide)
  · have absent : '[' ∉ '[' :: inner :=
      loopback_absent loopback (not_ipChar (by decide) (by decide) (by decide)) (by decide)
    simp at absent

/-- A loopback host in brackets is properly closed. -/
theorem rfc_closed (loopback : isLoopbackHost (rfcHost url) = true) : Closed url := by
  intro inner text
  rw [rfcHost, text] at loopback
  have unparsed : parseIpAddr ('[' :: inner) = none :=
    parse_none List.mem_cons_self (not_ipChar (by decide) (by decide) (by decide))
  have portless (whole : isLoopbackHost (withoutBrackets ('[' :: inner)) = true) :
      ∃ address port, inner = address ++ ']' :: port ∧ ']' ∉ address ∧ IsPort port := by
    obtain ⟨address, enclosed, absent⟩ := withoutBrackets_loopback whole
    exact ⟨address, [], enclosed, absent, .inl rfl⟩
  unfold withoutPort at loopback
  rw [unparsed, if_neg (by simp)] at loopback
  cases found : rsplitOnce ':' ('[' :: inner) with
  | none =>
    rw [found] at loopback
    exact portless loopback
  | some pieces =>
    obtain ⟨host, port⟩ := pieces
    simp only [found] at loopback
    split at loopback
    · rename_i digits
      obtain ⟨split, _⟩ := rsplitOnce_some.mp found
      cases host with
      | nil => exact absurd (List.cons.inj split).1 (by decide)
      | cons c more =>
        obtain ⟨rfl, rest⟩ := List.cons.inj split
        obtain ⟨address, rfl, absent⟩ := withoutBrackets_loopback loopback
        exact ⟨address, ':' :: port, by simp [rest], absent, .inr ⟨port, rfl, digits⟩⟩
    · exact portless loopback

/-- Plaintext is kept from remote servers wherever every entry has the shape `host_of`
assumes: brackets closed before the port, a scheme before `://`, and no `@` behind the authority. -/
theorem plaintext_only_loopback_shaped (natsUrl : String)
    (shaped : ∀ server ∈ servers natsUrl, Closed server ∧ Delimited server) :
    PlaintextOnlyLoopback natsUrl := by
  have hosts (all : allHostsLoopback natsUrl = true) :
      ∀ server ∈ servers natsUrl, isLoopbackHost (rfcHost server) = true := by
    intro server member
    obtain ⟨closed, delimited⟩ := shaped server member
    exact delimited_loopback delimited closed ((allHostsLoopback_iff.mp all).2 server member)
  constructor
  · intro allowPlaintext plaintext
    have all := decideTlsPolicy_loopback.mp plaintext
    exact ⟨(allHostsLoopback_iff.mp all).1, hosts all⟩
  · rintro ⟨server, member, remote⟩
    have mixed : allHostsLoopback natsUrl = false := by
      by_contra all
      rw [hosts (by simpa using all) server member] at remote
      contradiction
    simp [decideTlsPolicy, mixed]

/- Userinfo, a port and a path on the one entry, a bracketed address on the other. -/
theorem plaintext_only_loopback_shaped_pair :
    PlaintextOnlyLoopback "nats://app:pw@localhost:4222/a?b#c, [::1]:4222" := by
  have entries : servers "nats://app:pw@localhost:4222/a?b#c, [::1]:4222" =
      ["nats://app:pw@localhost:4222/a?b#c".toList, "[::1]:4222".toList] := by decide +kernel
  refine plaintext_only_loopback_shaped _ ?_
  rw [entries]
  intro server member
  rcases List.mem_cons.mp member with rfl | member
  · have scheme : splitOnce [':', '/', '/'] "nats://app:pw@localhost:4222/a?b#c".toList =
        some ("nats".toList, "app:pw@localhost:4222/a?b#c".toList) := by decide +kernel
    have host : hostAndPort "nats://app:pw@localhost:4222/a?b#c".toList =
        "localhost:4222".toList := by
      decide +kernel
    constructor
    · intro inner bracket
      exact absurd (congrArg List.head? (host.symm.trans bracket)) (by simp)
    · constructor
      · intro prior rest found
        rw [scheme, Option.some.injEq, Prod.mk.injEq] at found
        rw [← found.1]
        decide
      · decide +kernel
  · rw [List.mem_singleton.mp member]
    have host : hostAndPort "[::1]:4222".toList = '[' :: "::1]:4222".toList := by decide +kernel
    constructor
    · intro inner bracket
      have same : inner = "::1]:4222".toList := (List.cons.inj (bracket.symm.trans host)).2
      exact ⟨"::1".toList, ":4222".toList, by rw [same]; decide, by decide,
        .inr ⟨_, rfl, by decide⟩⟩
    · constructor
      · intro prior rest found
        rw [show splitOnce [':', '/', '/'] "[::1]:4222".toList = none by decide +kernel] at found
        contradiction
      · decide +kernel

/-- The brackets are needed: a list that passes for loopback with one of them open is served
in plaintext, though that entry's host is no loopback address. -/
theorem unclosed_plaintext {natsUrl : String} {server : List Char}
    (member : server ∈ servers natsUrl)
    (all : allHostsLoopback natsUrl = true) (unclosed : ¬ Closed server) :
    ¬ PlaintextOnlyLoopback natsUrl := by
  intro safe
  have loopback := (safe.plaintext false (decideTlsPolicy_loopback.mpr all)).2 server member
  exact unclosed (rfc_closed loopback)

/- The `@` of the path makes the remote server look like this host. -/
theorem userinfo_in_path_plaintext : ¬ PlaintextOnlyLoopback "nats://evil.example/@localhost" := by
  intro safe
  have chosen : decideTlsPolicy "nats://evil.example/@localhost" false false =
      .loopbackPlaintext := by
    decide +kernel
  have remote : ¬ ∀ server ∈ servers "nats://evil.example/@localhost",
      isLoopbackHost (rfcHost server) = true := by decide +kernel
  exact remote (safe.plaintext false chosen).2

end FiduciaMessaging
