import DazeApi.Lib.Decimal
import DazeApi.Lib.Text
import Mathlib.Algebra.Group.Nat.Defs

/-!
# Requests to addresses

`common/ssrf_protection.go` for a URL whose host is an address literal.  What an address is, is
read off its number by some tests and off its printed form by others.  An address that is not
specified passes all of them, and a literal with a zone is taken for a domain
(`validateURL_spec`).
-/

namespace DazeApi.Ssrf

/-! ## Addresses -/

/-- An address of 16 bytes, in groups of two; an IPv4 address is one that begins with
`::ffff`. -/
structure Address where
  g0 : Fin 65536
  g1 : Fin 65536
  g2 : Fin 65536
  g3 : Fin 65536
  g4 : Fin 65536
  g5 : Fin 65536
  g6 : Fin 65536
  g7 : Fin 65536
deriving DecidableEq, Repr

/-- `To4`, as a number. -/
def to4 (ip : Address) : Option Nat :=
  if ip.g0 = 0 ∧ ip.g1 = 0 ∧ ip.g2 = 0 ∧ ip.g3 = 0 ∧ ip.g4 = 0 ∧ ip.g5 = 0xffff then
    some (ip.g6.val * 65536 + ip.g7.val)
  else none

def ipv4 (a b c d : Nat) : Nat := a * 2 ^ 24 + b * 2 ^ 16 + c * 2 ^ 8 + d

def ipv6loopback : Address := ⟨0, 0, 0, 0, 0, 0, 0, 1⟩

def isLoopback (ip : Address) : Bool :=
  match to4 ip with
  | some n => n / 2 ^ 24 = 127
  | none => ip = ipv6loopback

def isLinkLocalUnicast (ip : Address) : Bool :=
  match to4 ip with
  | some n => n / 2 ^ 24 = 169 && n / 2 ^ 16 % 256 = 254
  | none => ip.g0.val / 256 = 0xfe && ip.g0.val % 256 &&& 0xc0 = 0x80

def isLinkLocalMulticast (ip : Address) : Bool :=
  match to4 ip with
  | some n => n / 2 ^ 24 = 224 && n / 2 ^ 16 % 256 = 0 && n / 2 ^ 8 % 256 = 0
  | none => ip.g0.val / 256 = 0xff && ip.g0.val % 256 &&& 0x0f = 0x02

/-- `Contains` of an IPv4 network. -/
def contains (network : Nat × Nat) (ip : Address) : Bool :=
  match to4 ip with
  | some n => n / 2 ^ (32 - network.2) = network.1 / 2 ^ (32 - network.2)
  | none => false

/-! ## Printing -/

/-- A group in hexadecimal digits. -/
def hex (g : Nat) : List Char :=
  (if 0x1000 ≤ g then [Nat.digitChar (g / 0x1000)] else []) ++
    (if 0x100 ≤ g then [Nat.digitChar (g / 0x100 % 16)] else []) ++
    (if 0x10 ≤ g then [Nat.digitChar (g / 0x10 % 16)] else []) ++ [Nat.digitChar (g % 16)]

def groups (ip : Address) : List Nat :=
  [ip.g0, ip.g1, ip.g2, ip.g3, ip.g4, ip.g5, ip.g6, ip.g7]

def zeros (gs : List Nat) : Nat := (gs.takeWhile (· = 0)).length

/-- The start and the length of the first longest run of zeros; a run has two at least. -/
def longestRun : List Nat → Nat → Nat × Nat → Nat × Nat
  | [], _, best => best
  | g :: gs, i, best =>
      longestRun gs (i + 1)
        (if 2 ≤ zeros (g :: gs) ∧ best.2 < zeros (g :: gs) then (i, zeros (g :: gs)) else best)

/-- Groups with colons between them. -/
def colons (gs : List Nat) : List Char := [':'].intercalate (gs.map hex)

def text6 (gs : List Nat) : List Char :=
  let run := longestRun gs 0 (0, 0)
  if run.2 = 0 then colons gs
  else colons (gs.take run.1) ++ ':' :: ':' :: colons (gs.drop (run.1 + run.2))

/-- `String`. -/
def ipString (ip : Address) : String :=
  match to4 ip with
  | some n =>
      String.ofList (['.'].intercalate
        ([n / 2 ^ 24, n / 2 ^ 16 % 256, n / 2 ^ 8 % 256, n % 256].map Decimal.formatNat))
  | none => String.ofList (text6 (groups ip))

/-! ## The filter -/

def privateNetworks : List (Nat × Nat) :=
  [(ipv4 10 0 0 0, 8), (ipv4 172 16 0 0, 12), (ipv4 192 168 0 0, 16), (ipv4 127 0 0 0, 8),
    (ipv4 169 254 0 0, 16), (ipv4 224 0 0 0, 4), (ipv4 240 0 0 0, 4)]

def isPrivateIP (ip : Address) : Bool :=
  if isLoopback ip || isLinkLocalUnicast ip || isLinkLocalMulticast ip then true
  else if privateNetworks.any (contains · ip) then true
  else if to4 ip = none then
    ip = ipv6loopback || Text.hasPrefix (ipString ip) "fe80:" ||
      (Text.hasPrefix (ipString ip) "fc" || Text.hasPrefix (ipString ip) "fd")
  else false

/-- `strconv.Atoi`. -/
def atoi (s : String) : Option Int := Decimal.parseInt s.toList

/-- The ports of one entry; none for an error. -/
def portsOf (config : String) : Option (List Int) :=
  if '-' ∈ config.toList then
    match Text.splitAt config '-' with
    | [first, second] =>
        match atoi (Text.trimSpace first), atoi (Text.trimSpace second) with
        | some start, some last =>
            if last < start then none
            else if start < 1 ∨ 65535 < start ∨ last < 1 ∨ 65535 < last then none
            else some ((List.range (last - start + 1).toNat).map fun i : Nat => start + i)
        | _, _ => none
    | _ => none
  else
    (atoi config).bind fun port => if port < 1 ∨ 65535 < port then none else some [port]

def parsePortRanges : List String → Option (List Int)
  | [] => some []
  | config :: configs =>
      if Text.trimSpace config = "" then parsePortRanges configs
      else
        (portsOf (Text.trimSpace config)).bind fun ports =>
          (parsePortRanges configs).map fun rest => ports ++ rest

structure SSRFProtection where
  allowPrivateIp : Bool
  domainFilterMode : Bool
  domainList : List String
  ipFilterMode : Bool
  ipList : List String
  allowedPorts : List Int
  applyIPFilterForDomain : Bool
deriving DecidableEq, Repr

def SSRFProtection.isAllowedPort (p : SSRFProtection) (port : Int) : Bool :=
  if p.allowedPorts = [] then true else port ∈ p.allowedPorts

/-- An entry of a list of domains. -/
def matchesDomain (domain item : String) : Bool :=
  let item := Text.toLower (Text.trimSpace item)
  if item = "" then false
  else if domain = item then true
  else if Text.hasPrefix item "*." then
    Text.hasSuffix domain ("." ++ Text.dropPrefix item "*.") || domain = Text.dropPrefix item "*."
  else false

def isDomainListed (domain : String) (list : List String) : Bool :=
  list.any (matchesDomain (Text.toLower domain))

def SSRFProtection.isDomainAllowed (p : SSRFProtection) (domain : String) : Bool :=
  if p.domainFilterMode then isDomainListed domain p.domainList
  else !isDomainListed domain p.domainList

/-- What the package `net` makes of texts; a network is what it contains. -/
structure Net where
  parseIP : String → Option Address
  parseCIDR : String → Option (Address → Bool)
  lookupIP : String → Except String (List Address)

section

variable (net : Net)

def isIpInCIDRList (ip : Address) (cidrList : List String) : Bool :=
  cidrList.any fun cidr =>
    match net.parseCIDR cidr with
    | none =>
        match net.parseIP cidr with
        | some whitelistIP => ip = whitelistIP
        | none => false
    | some network => network ip

def SSRFProtection.isIPAccessAllowed (p : SSRFProtection) (ip : Address) : Bool :=
  if isPrivateIP ip && !p.allowPrivateIp then false
  else if p.ipFilterMode then isIpInCIDRList net ip p.ipList
  else !isIpInCIDRList net ip p.ipList

/-- A URL whose host is a literal: its text without brackets, its zone and the text of its port. -/
structure URL where
  scheme : String
  text : String
  zone : Option String
  port : Option String
deriving DecidableEq, Repr

/-- The host without brackets and port. -/
def URL.host (u : URL) : String :=
  match u.zone with
  | none => u.text
  | some zone => u.text ++ "%" ++ zone

def URL.portStr (u : URL) : String :=
  u.port.getD (if u.scheme = "https" then "443" else "80")

/-- The loop over the addresses of a domain. -/
def validateResolved (p : SSRFProtection) (host : String) : List Address → Except String Unit
  | [] => .ok ()
  | ip :: ips =>
      if !p.isIPAccessAllowed net ip then
        if isPrivateIP ip && !p.allowPrivateIp then
          .error ("private IP address not allowed: " ++ host ++ " resolves to " ++ ipString ip)
        else if p.ipFilterMode then
          .error ("ip not in whitelist: " ++ host ++ " resolves to " ++ ipString ip)
        else .error ("ip in blacklist: " ++ host ++ " resolves to " ++ ipString ip)
      else validateResolved p host ips

def validateURL (p : SSRFProtection) (u : URL) : Except String Unit :=
  if u.scheme ≠ "http" ∧ u.scheme ≠ "https" then
    .error ("unsupported protocol: " ++ u.scheme ++ " (only http/https allowed)")
  else
    match atoi u.portStr with
    | none => .error ("invalid port: " ++ u.portStr)
    | some port =>
        if !p.isAllowedPort port then
          .error ("port " ++ String.ofList (Decimal.formatInt port) ++ " is not allowed")
        else
          match net.parseIP u.host with
          | some ip =>
              if !p.isIPAccessAllowed net ip then
                if isPrivateIP ip then
                  .error ("private IP address not allowed: " ++ ipString ip)
                else if p.ipFilterMode then .error ("ip not in whitelist: " ++ ipString ip)
                else .error ("ip in blacklist: " ++ ipString ip)
              else .ok ()
          | none =>
              if !p.isDomainAllowed u.host then
                if p.domainFilterMode then .error ("domain not in whitelist: " ++ u.host)
                else .error ("domain in blacklist: " ++ u.host)
              else if !p.applyIPFilterForDomain then .ok ()
              else
                match net.lookupIP u.host with
                | .error err => .error ("DNS resolution failed for " ++ u.host ++ ": " ++ err)
                | .ok ips => validateResolved net p u.host ips

end

/-! ## Which addresses are safe -/

/-- The address is `n` in IPv4, or no IPv4 address. -/
def Unspecified (ip : Address) : Prop :=
  to4 ip = some 0 ∨ ip = ⟨0, 0, 0, 0, 0, 0, 0, 0⟩

def Loopback (ip : Address) : Prop :=
  (∃ n, to4 ip = some n ∧ ipv4 127 0 0 0 ≤ n ∧ n ≤ ipv4 127 255 255 255) ∨ ip = ipv6loopback

/-- 169.254.0.0/16, fe80::/10, 224.0.0.0/24 and the multicast addresses of scope 2. -/
def LinkLocal (ip : Address) : Prop :=
  (∃ n, to4 ip = some n ∧ (ipv4 169 254 0 0 ≤ n ∧ n ≤ ipv4 169 254 255 255 ∨
    ipv4 224 0 0 0 ≤ n ∧ n ≤ ipv4 224 0 0 255)) ∨
  0xfe80 ≤ ip.g0.val ∧ ip.g0.val ≤ 0xfebf ∨ ip.g0.val / 256 = 0xff ∧ ip.g0.val % 16 = 2

/-- 10.0.0.0/8, 172.16.0.0/12, 192.168.0.0/16. -/
def Private4 (ip : Address) : Prop :=
  ∃ n, to4 ip = some n ∧ (ipv4 10 0 0 0 ≤ n ∧ n ≤ ipv4 10 255 255 255 ∨
    ipv4 172 16 0 0 ≤ n ∧ n ≤ ipv4 172 31 255 255 ∨
    ipv4 192 168 0 0 ≤ n ∧ n ≤ ipv4 192 168 255 255)

/-- fc00::/7. -/
def UniqueLocal (ip : Address) : Prop := 0xfc00 ≤ ip.g0.val ∧ ip.g0.val ≤ 0xfdff

structure Safe (ip : Address) : Prop where
  loopback : ¬ Loopback ip
  unspecified : ¬ Unspecified ip
  linkLocal : ¬ LinkLocal ip
  private4 : ¬ Private4 ip
  uniqueLocal : ¬ UniqueLocal ip

section

variable {ip : Address} {g d e n : Nat} {rest : List Char} {gs : List Nat}

theorem digitChar_eq_iff : ∀ d < 16, ∀ e < 16, Nat.digitChar d = Nat.digitChar e ↔ d = e := by
  decide

theorem digitChar_ne_colon : ∀ d < 16, Nat.digitChar d ≠ ':' := by decide

theorem hex_of_ge (h : 0x1000 ≤ g) : hex g = [Nat.digitChar (g / 0x1000),
    Nat.digitChar (g / 0x100 % 16), Nat.digitChar (g / 0x10 % 16), Nat.digitChar (g % 16)] := by
  rw [hex, if_pos h, if_pos (by omega), if_pos (by omega)]
  rfl

theorem hex_of_three (h : 0x100 ≤ g) (h' : g < 0x1000) :
    hex g = [Nat.digitChar (g / 0x100), Nat.digitChar (g / 0x10 % 16), Nat.digitChar (g % 16)] := by
  rw [hex, if_neg (by omega), if_pos h, if_pos (by omega), Nat.mod_eq_of_lt (by omega : g / 0x100 < 16)]
  rfl

theorem hex_of_two (h : 0x10 ≤ g) (h' : g < 0x100) :
    hex g = [Nat.digitChar (g / 0x10), Nat.digitChar (g % 16)] := by
  rw [hex, if_neg (by omega), if_neg (by omega), if_pos h,
    Nat.mod_eq_of_lt (by omega : g / 0x10 < 16)]
  rfl

theorem hex_of_one (h : g < 0x10) : hex g = [Nat.digitChar g] := by
  rw [hex, if_neg (by omega), if_neg (by omega), if_neg (by omega), Nat.mod_eq_of_lt h]
  rfl

theorem pair_prefix_iff {x y : Char} {l : List Char} {a b : Char} :
    [x, y] <+: a :: b :: l ↔ x = a ∧ y = b := by
  rw [List.cons_prefix_cons, List.cons_prefix_cons]
  simp

/-- A printed address begins with two digits exactly if these are the first two of its first group,
of any length. -/
theorem digits_prefix_iff (hg : g < 65536) (hd : d < 16) (hd' : d ≠ 0) (he : e < 16) :
    [Nat.digitChar d, Nat.digitChar e] <+: hex g ++ ':' :: rest ↔
      g / 256 = d * 16 + e ∨ g / 16 = d * 16 + e ∨ g = d * 16 + e := by
  have hcolon := digitChar_ne_colon e he
  rcases Nat.lt_or_ge g 0x10 with h | h
  · rw [hex_of_one h]
    refine iff_of_false ?_ (by omega)
    intro hpre
    exact hcolon (pair_prefix_iff.1 hpre).2
  · rcases Nat.lt_or_ge g 0x100 with h' | h'
    · rw [hex_of_two h h']
      simp only [List.cons_append, List.nil_append, pair_prefix_iff]
      rw [digitChar_eq_iff d hd _ (by omega), digitChar_eq_iff e he _ (by omega)]
      omega
    · rcases Nat.lt_or_ge g 0x1000 with h'' | h''
      · rw [hex_of_three h' h'']
        simp only [List.cons_append, List.nil_append, pair_prefix_iff]
        rw [digitChar_eq_iff d hd _ (by omega), digitChar_eq_iff e he _ (by omega)]
        omega
      · rw [hex_of_ge h'']
        simp only [List.cons_append, List.nil_append, pair_prefix_iff]
        rw [digitChar_eq_iff d hd _ (by omega), digitChar_eq_iff e he _ (by omega)]
        omega

/-- Only fe80 is printed so. -/
theorem eq_of_fe80_prefix (hg : g < 65536) (h : "fe80:".toList <+: hex g ++ ':' :: rest) :
    g = 0xfe80 := by
  have hlist : "fe80:".toList = [Nat.digitChar 15, Nat.digitChar 14, Nat.digitChar 8,
      Nat.digitChar 0, ':'] := by decide
  rw [hlist] at h
  rcases Nat.lt_or_ge g 0x10 with hlt | hge
  · rw [hex_of_one hlt] at h
    simp only [List.cons_append, List.nil_append, List.cons_prefix_cons] at h
    exact absurd h.2.1 (digitChar_ne_colon 14 (by decide))
  · rcases Nat.lt_or_ge g 0x100 with hlt | hge'
    · rw [hex_of_two hge hlt] at h
      simp only [List.cons_append, List.nil_append, List.cons_prefix_cons] at h
      exact absurd h.2.2.1 (digitChar_ne_colon 8 (by decide))
    · rcases Nat.lt_or_ge g 0x1000 with hlt | hge''
      · rw [hex_of_three hge' hlt] at h
        simp only [List.cons_append, List.nil_append, List.cons_prefix_cons] at h
        exact absurd h.2.2.2.1 (digitChar_ne_colon 0 (by decide))
      · rw [hex_of_ge hge''] at h
        simp only [List.cons_append, List.nil_append, List.cons_prefix_cons] at h
        obtain ⟨h3, h2, h1, h0, -⟩ := h
        have h3 := (digitChar_eq_iff 15 (by decide) _ (by omega)).1 h3
        have h2 := (digitChar_eq_iff 14 (by decide) _ (by omega)).1 h2
        have h1 := (digitChar_eq_iff 8 (by decide) _ (by omega)).1 h1
        have h0 := (digitChar_eq_iff 0 (by decide) _ (by omega)).1 h0
        omega

theorem le_longestRun (gs : List Nat) (i : Nat) (best : Nat × Nat) :
    longestRun gs i best = best ∨ i ≤ (longestRun gs i best).1 := by
  induction gs generalizing i best with
  | nil => exact Or.inl rfl
  | cons g gs ih =>
      rw [longestRun]
      rcases ih (i + 1) (if 2 ≤ zeros (g :: gs) ∧ best.2 < zeros (g :: gs) then
        (i, zeros (g :: gs)) else best) with h | h
      · rw [h]
        split
        · exact Or.inr (Nat.le_refl i)
        · exact Or.inl rfl
      · exact Or.inr (by omega)

/-- A run that starts at the first group is one of zeros. -/
theorem eq_zero_of_longestRun (hstart : (longestRun (g :: gs) 0 (0, 0)).1 = 0)
    (hlength : (longestRun (g :: gs) 0 (0, 0)).2 ≠ 0) : g = 0 := by
  rw [longestRun] at hstart hlength
  rcases le_longestRun gs 1 (if 2 ≤ zeros (g :: gs) ∧ (0, 0).2 < zeros (g :: gs) then
      (0, zeros (g :: gs)) else (0, 0)) with h | h
  · rw [Nat.zero_add, h] at hlength
    split at hlength
    next hzeros =>
      by_contra hg
      rw [zeros, List.takeWhile_cons_of_neg (by simpa using hg)] at hzeros
      exact absurd hzeros.1 (by decide)
    next => exact absurd rfl hlength
  · rw [Nat.zero_add] at hstart
    omega

theorem colons_cons (g g' : Nat) (gs : List Nat) :
    colons (g :: g' :: gs) = hex g ++ ':' :: colons (g' :: gs) := by
  simp [colons, List.intercalate]

/-- A printed address begins with its first group, or with a colon for a run of zeros. -/
theorem text6_cons (g g' : Nat) (gs : List Nat) :
    (∃ rest, text6 (g :: g' :: gs) = hex g ++ ':' :: rest) ∨
      g = 0 ∧ ∃ rest, text6 (g :: g' :: gs) = ':' :: rest := by
  rw [text6]
  by_cases hlength : (longestRun (g :: g' :: gs) 0 (0, 0)).2 = 0
  · rw [if_pos hlength, colons_cons]
    exact Or.inl ⟨_, rfl⟩
  · rw [if_neg hlength]
    cases hstart : (longestRun (g :: g' :: gs) 0 (0, 0)).1 with
    | zero => exact Or.inr ⟨eq_zero_of_longestRun hstart hlength, _, rfl⟩
    | succ start =>
        refine Or.inl ?_
        cases start with
        | zero =>
            have hone : colons [g] = hex g := List.append_nil _
            rw [List.take_succ_cons, List.take_zero, hone]
            exact ⟨_, rfl⟩
        | succ start =>
            rw [List.take_succ_cons, List.take_succ_cons, colons_cons, List.append_assoc]
            exact ⟨_, rfl⟩

/-- A printed address that is no IPv4 address begins with two digits exactly if its first group
does. -/
theorem hasPrefix_ipString_iff (h6 : to4 ip = none) (hd : d < 16) (hd' : d ≠ 0) (he : e < 16) :
    Text.hasPrefix (ipString ip) (String.ofList [Nat.digitChar d, Nat.digitChar e]) = true ↔
      ip.g0.val / 256 = d * 16 + e ∨ ip.g0.val / 16 = d * 16 + e ∨ ip.g0.val = d * 16 + e := by
  rw [Text.hasPrefix_iff, String.toList_ofList, ipString, h6]
  simp only [String.toList_ofList]
  rcases text6_cons ip.g0.val ip.g1.val [ip.g2, ip.g3, ip.g4, ip.g5, ip.g6, ip.g7] with
    ⟨rest, htext⟩ | ⟨hzero, rest, htext⟩
  · rw [groups, htext]
    exact digits_prefix_iff ip.g0.isLt hd hd' he
  · rw [groups, htext, List.cons_prefix_cons]
    refine iff_of_false ?_ (by omega)
    rintro ⟨hcolon, -⟩
    exact digitChar_ne_colon d hd hcolon

theorem eq_of_hasPrefix_fe80 (h6 : to4 ip = none)
    (h : Text.hasPrefix (ipString ip) "fe80:" = true) : ip.g0.val = 0xfe80 := by
  rw [Text.hasPrefix_iff, ipString, h6] at h
  simp only [String.toList_ofList] at h
  rcases text6_cons ip.g0.val ip.g1.val [ip.g2, ip.g3, ip.g4, ip.g5, ip.g6, ip.g7] with
    ⟨rest, htext⟩ | ⟨hzero, rest, htext⟩
  · rw [groups, htext] at h
    exact eq_of_fe80_prefix ip.g0.isLt h
  · rw [groups, htext, show "fe80:".toList = 'f' :: ['e', '8', '0', ':'] by decide,
      List.cons_prefix_cons] at h
    exact absurd h.1 (by decide)

/-! ## What the tests decide -/

/-- An IPv6 address that the filter means to reject. -/
def Special6 (ip : Address) : Prop :=
  ip = ipv6loopback ∨ (0xfe80 ≤ ip.g0.val ∧ ip.g0.val ≤ 0xfebf) ∨
    (ip.g0.val / 256 = 0xff ∧ ip.g0.val % 16 = 2) ∨ UniqueLocal ip

/-- The first group has fewer than four digits and begins with `fc` or `fd`. -/
def ShortGroup (ip : Address) : Prop :=
  ip.g0.val = 0xfc ∨ ip.g0.val = 0xfd ∨ 0xfc0 ≤ ip.g0.val ∧ ip.g0.val ≤ 0xfdf

theorem and_c0_iff : ∀ b < 256, (b &&& 0xc0 = 0x80 ↔ b / 64 = 2) := by
  decide +kernel

theorem and_0f_iff : ∀ b < 256, (b &&& 0x0f = 0x02 ↔ b % 16 = 2) := by
  decide +kernel

theorem isLinkLocalUnicast_iff (h6 : to4 ip = none) :
    isLinkLocalUnicast ip = true ↔ 0xfe80 ≤ ip.g0.val ∧ ip.g0.val ≤ 0xfebf := by
  have hlt := ip.g0.isLt
  rw [isLinkLocalUnicast, h6]
  simp only [Bool.and_eq_true, decide_eq_true_eq]
  rw [and_c0_iff _ (Nat.mod_lt _ (by decide))]
  omega

theorem isLinkLocalMulticast_iff (h6 : to4 ip = none) :
    isLinkLocalMulticast ip = true ↔ ip.g0.val / 256 = 0xff ∧ ip.g0.val % 16 = 2 := by
  rw [isLinkLocalMulticast, h6]
  simp only [Bool.and_eq_true, decide_eq_true_eq]
  rw [and_0f_iff _ (Nat.mod_lt _ (by decide))]
  omega

theorem privateNetworks_of_none (h6 : to4 ip = none) :
    privateNetworks.any (contains · ip) = false := by
  rw [List.any_eq_false]
  intro network _
  rw [contains, h6]
  exact Bool.false_ne_true

/-- What is rejected of the addresses that are no IPv4 addresses. -/
theorem isPrivateIP_iff_of_none (h6 : to4 ip = none) :
    isPrivateIP ip = true ↔ Special6 ip ∨ ShortGroup ip := by
  have hloopback : isLoopback ip = true ↔ ip = ipv6loopback := by
    rw [isLoopback, h6]
    simp only [decide_eq_true_eq]
  have hfc : Text.hasPrefix (ipString ip) "fc" = true ↔
      ip.g0.val / 256 = 252 ∨ ip.g0.val / 16 = 252 ∨ ip.g0.val = 252 :=
    hasPrefix_ipString_iff (d := 15) (e := 12) h6 (by decide) (by decide) (by decide)
  have hfd : Text.hasPrefix (ipString ip) "fd" = true ↔
      ip.g0.val / 256 = 253 ∨ ip.g0.val / 16 = 253 ∨ ip.g0.val = 253 :=
    hasPrefix_ipString_iff (d := 15) (e := 13) h6 (by decide) (by decide) (by decide)
  have hunicast := isLinkLocalUnicast_iff h6
  have hmulticast := isLinkLocalMulticast_iff h6
  rw [isPrivateIP, privateNetworks_of_none h6, if_pos h6]
  constructor
  · intro h
    split at h
    next htests =>
      rw [Bool.or_eq_true, Bool.or_eq_true] at htests
      rcases htests with (h | h) | h
      · exact Or.inl (Or.inl (hloopback.1 h))
      · exact Or.inl (Or.inr (Or.inl (hunicast.1 h)))
      · exact Or.inl (Or.inr (Or.inr (Or.inl (hmulticast.1 h))))
    next =>
      rw [if_neg Bool.false_ne_true, Bool.or_eq_true, Bool.or_eq_true, Bool.or_eq_true,
        decide_eq_true_eq] at h
      rw [Special6, UniqueLocal, ShortGroup]
      rcases h with (h | h) | h | h
      · exact Or.inl (Or.inl h)
      · have := eq_of_hasPrefix_fe80 h6 h
        omega
      · have := hfc.1 h
        omega
      · have := hfd.1 h
        omega
  · intro h
    split
    next => rfl
    next htests =>
      rw [Bool.or_eq_true, Bool.or_eq_true, not_or, not_or] at htests
      obtain ⟨⟨hnot, hunicast'⟩, hmulticast'⟩ := htests
      rw [hloopback] at hnot
      rw [hunicast] at hunicast'
      rw [hmulticast] at hmulticast'
      rw [if_neg Bool.false_ne_true, Bool.or_eq_true, Bool.or_eq_true, Bool.or_eq_true]
      have hprefix : Text.hasPrefix (ipString ip) "fc" = true ∨
          Text.hasPrefix (ipString ip) "fd" = true := by
        rw [hfc, hfd]
        rw [Special6, UniqueLocal, ShortGroup] at h
        rcases h with (h | h | h | h) | h
        · exact absurd h hnot
        · exact absurd h hunicast'
        · exact absurd h hmulticast'
        · omega
        · omega
      exact Or.inr hprefix

/-- Of the addresses that are no IPv4 addresses and are specified, what is not rejected is safe. -/
theorem safe6_of_isPrivateIP_eq_false (h6 : to4 ip = none) (h : isPrivateIP ip = false)
    (hspecified : ¬ Unspecified ip) : Safe ip := by
  have hnot : ¬ (Special6 ip ∨ ShortGroup ip) := by
    rw [← isPrivateIP_iff_of_none h6, h]
    exact Bool.false_ne_true
  have hnone : ∀ {P : Nat → Prop}, ¬ ∃ n, to4 ip = some n ∧ P n := by
    rintro P ⟨n, hn, -⟩
    rw [h6] at hn
    cases hn
  refine ⟨?_, hspecified, ?_, hnone, ?_⟩
  · rintro (hloopback | hloopback)
    · exact hnone hloopback
    · exact hnot (Or.inl (Or.inl hloopback))
  · rintro (hlocal | hlocal | hlocal)
    · exact hnone hlocal
    · exact hnot (Or.inl (Or.inr (Or.inl hlocal)))
    · exact hnot (Or.inl (Or.inr (Or.inr (Or.inl hlocal))))
  · exact fun hlocal => hnot (Or.inl (Or.inr (Or.inr (Or.inr hlocal))))

/-- The groups of an IPv4 address. -/
theorem groups_of_to4 (h : to4 ip = some n) :
    ip.g0 = 0 ∧ ip.g1 = 0 ∧ ip.g2 = 0 ∧ ip.g3 = 0 ∧ ip.g4 = 0 ∧ ip.g5 = 0xffff ∧
      n = ip.g6.val * 65536 + ip.g7.val := by
  rw [to4] at h
  split at h
  next hgroups =>
    rw [Option.some.injEq] at h
    exact ⟨hgroups.1, hgroups.2.1, hgroups.2.2.1, hgroups.2.2.2.1, hgroups.2.2.2.2.1,
      hgroups.2.2.2.2.2, h.symm⟩
  next => cases h

/-- Of the IPv4 addresses that are specified, what is not rejected is safe. -/
theorem safe4_of_isPrivateIP_eq_false (h4 : to4 ip = some n) (h : isPrivateIP ip = false)
    (hspecified : ¬ Unspecified ip) : Safe ip := by
  have hg0 : ip.g0.val = 0 := by
    rw [(groups_of_to4 h4).1]
    rfl
  have hsome : ∀ {P : Nat → Prop}, (∃ m, to4 ip = some m ∧ P m) → P n := by
    rintro P ⟨m, hm, hP⟩
    rw [h4] at hm
    cases hm
    exact hP
  rw [isPrivateIP] at h
  split at h
  next => cases h
  next htests =>
    split at h
    next => cases h
    next hnetworks =>
      simp only [isLoopback, isLinkLocalUnicast, isLinkLocalMulticast, h4, Bool.or_eq_true,
        Bool.and_eq_true, decide_eq_true_eq] at htests
      simp only [privateNetworks, List.any_cons, List.any_nil, contains, h4, ipv4,
        Bool.or_eq_true, decide_eq_true_eq] at hnetworks
      refine ⟨?_, hspecified, ?_, ?_, ?_⟩
      · rintro (hloopback | rfl)
        · have := hsome hloopback
          simp only [ipv4] at this
          omega
        · cases h4
      · rintro (hlocal | hlocal | hlocal)
        · have := hsome hlocal
          simp only [ipv4] at this
          omega
        · omega
        · omega
      · intro hprivate
        have := hsome hprivate
        simp only [ipv4] at this
        omega
      · intro hlocal
        rw [UniqueLocal] at hlocal
        omega

/-- Of the addresses that are specified, what is not rejected is safe. -/
theorem safe_of_isPrivateIP_eq_false (h : isPrivateIP ip = false) (hspecified : ¬ Unspecified ip) :
    Safe ip := by
  cases hip : to4 ip with
  | none => exact safe6_of_isPrivateIP_eq_false hip h hspecified
  | some n => exact safe4_of_isPrivateIP_eq_false hip h hspecified

/-- An address that is not specified is not rejected. -/
theorem isPrivateIP_of_unspecified (h : Unspecified ip) : isPrivateIP ip = false := by
  rcases h with h | rfl
  · obtain ⟨h0, h1, h2, h3, h4, h5, hzero⟩ := groups_of_to4 h
    have h6 : ip.g6 = 0 := by
      have : ip.g6.val = 0 := by omega
      exact Fin.ext this
    have h7 : ip.g7 = 0 := by
      have : ip.g7.val = 0 := by omega
      exact Fin.ext this
    obtain ⟨g0, g1, g2, g3, g4, g5, g6, g7⟩ := ip
    obtain ⟨rfl, rfl, rfl, rfl, rfl, rfl, rfl, rfl⟩ :=
      (⟨h0, h1, h2, h3, h4, h5, h6, h7⟩ : g0 = 0 ∧ g1 = 0 ∧ g2 = 0 ∧ g3 = 0 ∧ g4 = 0 ∧
        g5 = 0xffff ∧ g6 = 0 ∧ g7 = 0)
    decide +kernel
  · decide +kernel

/-! ## Ports -/

/-- An entry for a port or for a range of ports. -/
inductive Entry (config : String) : Int → Int → Prop where
  | port {p : Int} : '-' ∉ (Text.trimSpace config).toList →
      atoi (Text.trimSpace config) = some p → Entry config p p
  | range {first second : String} {start last : Int} :
      Text.splitAt (Text.trimSpace config) '-' = [first, second] →
        atoi (Text.trimSpace first) = some start → atoi (Text.trimSpace second) = some last →
          Entry config start last

/-- An entry is for one range. -/
theorem entry_unique {config : String} {m n m' n' : Int} (h : Entry config m n)
    (h' : Entry config m' n') : m = m' ∧ n = n' := by
  have hdash : ∀ {first second}, Text.splitAt (Text.trimSpace config) '-' = [first, second] →
      '-' ∈ (Text.trimSpace config).toList := by
    intro first second hsplit
    rw [(Text.splitAt_eq_pair hsplit).1]
    exact List.mem_append_right _ (.head _)
  cases h with
  | port hnot hn =>
      cases h' with
      | port _ hn' =>
          cases hn.symm.trans hn'
          exact ⟨rfl, rfl⟩
      | range hsplit _ _ => exact absurd (hdash hsplit) hnot
  | range hsplit hm hn =>
      cases h' with
      | port hnot _ => exact absurd (hdash hsplit) hnot
      | range hsplit' hm' hn' =>
          cases hsplit.symm.trans hsplit'
          cases hm.symm.trans hm'
          cases hn.symm.trans hn'
          exact ⟨rfl, rfl⟩

theorem portsOf_spec {config : String} {ports : List Int}
    (h : portsOf (Text.trimSpace config) = some ports) :
    ∃ m n, Entry config m n ∧ m ≤ n ∧ ∀ port, port ∈ ports ↔ m ≤ port ∧ port ≤ n := by
  rw [portsOf] at h
  split at h
  next hdash =>
    split at h
    next first second hsplit =>
      split at h
      next m n hm hn =>
        split at h
        next => cases h
        next hle =>
          split at h
          next => cases h
          next =>
            cases h
            refine ⟨m, n, Entry.range hsplit hm hn, by omega, fun port => ?_⟩
            rw [List.mem_map]
            constructor
            · rintro ⟨i, hi, rfl⟩
              rw [List.mem_range] at hi
              omega
            · rintro ⟨hlow, hhigh⟩
              refine ⟨(port - m).toNat, List.mem_range.2 (by omega), by omega⟩
      next => cases h
    next => cases h
  next hdash =>
    obtain ⟨n, hn, h⟩ := Option.bind_eq_some_iff.1 h
    split at h
    next => cases h
    next =>
      cases h
      refine ⟨n, n, Entry.port hdash hn, Int.le_refl n, fun port => ?_⟩
      rw [List.mem_singleton]
      omega

/-- The ports are those of the entries that are not blank, and there are none only if there are
no such entries. -/
theorem parsePortRanges_spec {configs : List String} {ports : List Int}
    (h : parsePortRanges configs = some ports) :
    (∀ port, port ∈ ports ↔ ∃ config ∈ configs, Text.trimSpace config ≠ "" ∧
      ∃ m n, Entry config m n ∧ m ≤ port ∧ port ≤ n) ∧
    (ports = [] ↔ ∀ config ∈ configs, Text.trimSpace config = "") := by
  induction configs generalizing ports with
  | nil =>
      cases h
      refine ⟨fun port => iff_of_false List.not_mem_nil ?_, iff_of_true rfl ?_⟩
      · rintro ⟨config, hconfig, -⟩
        cases hconfig
      · intro config hconfig
        cases hconfig
  | cons config configs ih =>
      rw [parsePortRanges] at h
      split at h
      next hblank =>
        obtain ⟨hmem, hnil⟩ := ih h
        refine ⟨fun port => ?_, ?_⟩
        · rw [hmem, List.exists_mem_cons_iff, or_iff_right]
          exact fun h => h.1 hblank
        · rw [hnil, List.forall_mem_cons, and_iff_right hblank]
      next hblank =>
        obtain ⟨first, hfirst, h⟩ := Option.bind_eq_some_iff.1 h
        obtain ⟨rest, hrest, rfl⟩ := Option.map_eq_some_iff.1 h
        obtain ⟨hmem, -⟩ := ih hrest
        obtain ⟨m, n, hentry, hle, hports⟩ := portsOf_spec hfirst
        refine ⟨fun port => ?_, ?_⟩
        · rw [List.mem_append, hmem, List.exists_mem_cons_iff]
          refine or_congr_left ⟨fun hport => ?_, ?_⟩
          · exact ⟨hblank, m, n, hentry, (hports port).1 hport⟩
          · rintro ⟨-, m', n', hentry', hin⟩
            have heq : m' = m ∧ n' = n := entry_unique hentry' hentry
            rw [hports, ← heq.1, ← heq.2]
            exact hin
        · refine iff_of_false ?_ fun hall => hblank (hall config (.head _))
          intro hnil
          have hm : m ∈ first := (hports m).2 ⟨Int.le_refl m, hle⟩
          rw [(List.append_eq_nil_iff.1 hnil).1] at hm
          cases hm

end

/-! ## Accepted literals -/

/-- The text is that of the address, and no text with a zone is one. -/
structure Spelled (net : Net) (u : URL) (ip : Address) : Prop where
  text : net.parseIP u.text = some ip
  zone : ∀ z ∈ u.zone, net.parseIP (u.text ++ "%" ++ z) = none

/-- Every configuration without private addresses that accepts the URL has its port, and the
address is safe. -/
def Guarded (net : Net) (u : URL) (ip : Address) : Prop :=
  ∀ p : SSRFProtection, p.allowPrivateIp = false → validateURL net p u = .ok () →
    Safe ip ∧ ∃ port, atoi u.portStr = some port ∧ (p.allowedPorts = [] ∨ port ∈ p.allowedPorts)

/-- The URL is of another kind, or its literal is a specified address without a zone or a safe
one. -/
def Fits (u : URL) (ip : Address) : Prop :=
  (u.scheme ≠ "http" ∧ u.scheme ≠ "https") ∨ atoi u.portStr = none ∨
    (u.zone = none ∧ ¬ Unspecified ip) ∨ (u.zone ≠ none ∧ Safe ip)

/-- What is accepted has a port and is an address that may be accessed, or has a zone. -/
theorem of_validateURL_eq_ok {net : Net} {p : SSRFProtection} {u : URL} {ip : Address}
    (hspelled : Spelled net u ip) (h : validateURL net p u = .ok ()) :
    (u.scheme = "http" ∨ u.scheme = "https") ∧
      (∃ port, atoi u.portStr = some port ∧ p.isAllowedPort port = true) ∧
      (u.zone = none → p.isIPAccessAllowed net ip = true) := by
  rw [validateURL] at h
  split at h
  next => cases h
  next hscheme =>
    split at h
    next => cases h
    next port hport =>
      split at h
      next => cases h
      next hallowed =>
        refine ⟨by by_contra hnot; exact hscheme (not_or.1 hnot), ⟨port, hport, ?_⟩, fun hzone => ?_⟩
        · simpa using hallowed
        · have hhost : u.host = u.text := by rw [URL.host, hzone]
          rw [hhost, hspelled.text] at h
          simp only at h
          split at h
          next =>
            split at h
            next => cases h
            next =>
              split at h
              next => cases h
              next => cases h
          next haccess => simpa using haccess

/-- A configuration that lists nothing. -/
def unlisted : SSRFProtection where
  allowPrivateIp := false
  domainFilterMode := false
  domainList := []
  ipFilterMode := false
  ipList := []
  allowedPorts := []
  applyIPFilterForDomain := false

/-- It accepts every literal with a zone, and every address that is not rejected. -/
theorem validateURL_unlisted {net : Net} {u : URL} {ip : Address} (hspelled : Spelled net u ip)
    (hscheme : u.scheme = "http" ∨ u.scheme = "https") {port : Int}
    (hport : atoi u.portStr = some port) (h : u.zone ≠ none ∨ isPrivateIP ip = false) :
    validateURL net unlisted u = .ok () := by
  rw [validateURL, if_neg (by rw [not_and_or, not_not, not_not]; exact hscheme), hport]
  have hallowed : unlisted.isAllowedPort port = true := rfl
  simp only [hallowed, Bool.not_true, Bool.false_eq_true, if_false]
  cases hzone : u.zone with
  | none =>
      have hhost : u.host = u.text := by rw [URL.host, hzone]
      have haccess : unlisted.isIPAccessAllowed net ip = true := by
        rw [SSRFProtection.isIPAccessAllowed, h.resolve_left fun hne => hne hzone]
        rfl
      rw [hhost, hspelled.text]
      simp only [haccess, Bool.not_true, Bool.false_eq_true, if_false]
  | some z =>
      have hhost : u.host = u.text ++ "%" ++ z := by rw [URL.host, hzone]
      have hdomain : unlisted.isDomainAllowed u.host = true := rfl
      rw [hhost, hspelled.zone z hzone, ← hhost]
      simp only [hdomain, Bool.not_true, Bool.false_eq_true, if_false]
      rfl

theorem guarded_iff {net : Net} {u : URL} {ip : Address} (hspelled : Spelled net u ip) :
    Guarded net u ip ↔ Fits u ip := by
  constructor
  · intro h
    by_contra hnot
    rw [Fits, not_or, not_or, not_or] at hnot
    obtain ⟨hscheme, hport, hplain, hzoned⟩ := hnot
    have hhttp : u.scheme = "http" ∨ u.scheme = "https" := by
      by_contra hnone
      exact hscheme (not_or.1 hnone)
    obtain ⟨port, hport⟩ := Option.ne_none_iff_exists'.1 hport
    have hsafe : u.zone ≠ none ∨ isPrivateIP ip = false → Safe ip := fun haccept =>
      (h unlisted rfl (validateURL_unlisted hspelled hhttp hport haccept)).1
    by_cases hzone : u.zone = none
    · have hun : Unspecified ip := by
        by_contra hspecified
        exact hplain ⟨hzone, hspecified⟩
      exact (hsafe (Or.inr (isPrivateIP_of_unspecified hun))).unspecified hun
    · exact hzoned ⟨hzone, hsafe (Or.inl hzone)⟩
  · intro h p hprivate haccept
    obtain ⟨hscheme, ⟨port, hport, hallowed⟩, haccess⟩ := of_validateURL_eq_ok hspelled haccept
    refine ⟨?_, port, hport, ?_⟩
    · rcases h with h | h | ⟨hzone, hspecified⟩ | ⟨-, hsafe⟩
      · rcases hscheme with hscheme | hscheme
        · exact absurd hscheme h.1
        · exact absurd hscheme h.2
      · rw [hport] at h
        cases h
      · refine safe_of_isPrivateIP_eq_false ?_ hspecified
        have := haccess hzone
        rw [SSRFProtection.isIPAccessAllowed, hprivate] at this
        cases hip : isPrivateIP ip with
        | false => rfl
        | true =>
            rw [hip] at this
            cases this
      · exact hsafe
    · rw [SSRFProtection.isAllowedPort] at hallowed
      split at hallowed
      next hnil => exact Or.inl hnil
      next => exact Or.inr (of_decide_eq_true hallowed)

/-- A URL with a literal is guarded by every configuration exactly if it is of another kind, or the
literal is a specified address without a zone or a safe one; the ports of a configuration are those
of its entries; and of the addresses that are no IPv4 addresses only special ones are rejected,
exactly if the first group is not short. -/
theorem validateURL_spec {net : Net} {u : URL} {ip : Address} (hspelled : Spelled net u ip) :
    (Guarded net u ip ↔ Fits u ip) ∧
    (∀ (configs : List String) (ports : List Int), parsePortRanges configs = some ports →
      (∀ port, port ∈ ports ↔ ∃ config ∈ configs, Text.trimSpace config ≠ "" ∧
        ∃ m n, Entry config m n ∧ m ≤ port ∧ port ≤ n) ∧
      (ports = [] ↔ ∀ config ∈ configs, Text.trimSpace config = "")) ∧
    ∀ ip, to4 ip = none →
      ((isPrivateIP ip = true → Special6 ip) ↔ ¬ ShortGroup ip) := by
  refine ⟨guarded_iff hspelled, fun configs ports => parsePortRanges_spec, ?_⟩
  intro ip h6
  rw [isPrivateIP_iff_of_none h6]
  constructor
  · intro h hshort
    have hspecial := h (Or.inr hshort)
    rw [Special6, UniqueLocal] at hspecial
    rw [ShortGroup] at hshort
    rcases hspecial with rfl | hspecial
    · exact absurd hshort (by decide)
    · omega
  · intro h hprivate
    exact hprivate.resolve_right h

/-- A package that knows two texts. -/
def smallNet : Net where
  parseIP s := if s = "0.0.0.0" then some ⟨0, 0, 0, 0, 0, 0xffff, 0, 0⟩
    else if s = "8.8.8.8" then some ⟨0, 0, 0, 0, 0, 0xffff, 0x808, 0x808⟩ else none
  parseCIDR _ := none
  lookupIP _ := .error "no such host"

/-- A public address is guarded. -/
theorem validateURL_spec_public :
    Guarded smallNet ⟨"https", "8.8.8.8", none, none⟩ ⟨0, 0, 0, 0, 0, 0xffff, 0x808, 0x808⟩ :=
  (validateURL_spec (⟨by decide, fun z hz => by cases hz⟩ : Spelled smallNet
    ⟨"https", "8.8.8.8", none, none⟩ ⟨0, 0, 0, 0, 0, 0xffff, 0x808, 0x808⟩)).1.2
    (Or.inr (Or.inr (Or.inl ⟨rfl, by rw [Unspecified]; decide⟩)))

/-- The address 0.0.0.0 is accepted. -/
theorem unspecified_not_guarded :
    ¬ ∀ (net : Net) (u : URL) (ip : Address), Spelled net u ip → Guarded net u ip := by
  intro h
  have hspelled : Spelled smallNet ⟨"http", "0.0.0.0", none, none⟩
      ⟨0, 0, 0, 0, 0, 0xffff, 0, 0⟩ := ⟨by decide, fun z hz => by cases hz⟩
  have hport : atoi (URL.portStr ⟨"http", "0.0.0.0", none, none⟩) = some 80 := by decide
  have haccept : validateURL smallNet unlisted ⟨"http", "0.0.0.0", none, none⟩ = .ok () :=
    validateURL_unlisted hspelled (Or.inl rfl) hport (Or.inr (by decide +kernel))
  exact (h _ _ _ hspelled unlisted rfl haccept).1.unspecified (Or.inl (by decide))

end DazeApi.Ssrf
