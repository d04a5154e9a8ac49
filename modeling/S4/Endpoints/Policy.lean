import S4.Lib.Fallible
import S4.Lib.Text

/-!
# Endpoints — Policy

The hosts that the gateway may be sent to (`backend.rs`): the endpoint of a workspace, and a
presigned URL.  Either way the addresses of the host are looked up, and those in the ranges that are
not public are refused, unless the host is one of the private ones that the operator allows.

An IPv4 address can be written as an IPv6 one in three ways.  The mapped form and 6to4 are refused,
but the translated form (`64:ff9b::/96`) is public whatever address it holds
(`embedded_refused_iff`).
-/

namespace S4.Endpoints

open Lib

abbrev Text : Type := List UInt8

/-! ### Addresses -/

/-- An address, as the number that it is. -/
inductive IpAddr where
  | v4 (bits : Nat)
  | v6 (bits : Nat)
deriving DecidableEq

def ipv4 (a b c d : Nat) : Nat := ((a * 2 ^ 8 + b) * 2 ^ 8 + c) * 2 ^ 8 + d

def ipv6 (a b c d e f g h : Nat) : Nat :=
  ((((((a * 2 ^ 16 + b) * 2 ^ 16 + c) * 2 ^ 16 + d) * 2 ^ 16 + e) * 2 ^ 16 + f) * 2 ^ 16 +
    g) * 2 ^ 16 + h

/-- `in_ipv4_ranges` and `in_ipv6_ranges`: the ranges are networks, with the lengths of their
prefixes. -/
def inRanges (width bits : Nat) (ranges : List (Nat × Nat)) : Bool :=
  ranges.any fun range => bits >>> (width - range.2) == range.1 >>> (width - range.2)

def ipv4ForbiddenRanges : List (Nat × Nat) :=
  [(ipv4 0 0 0 0, 8), (ipv4 10 0 0 0, 8), (ipv4 100 64 0 0, 10), (ipv4 127 0 0 0, 8),
    (ipv4 169 254 0 0, 16), (ipv4 172 16 0 0, 12), (ipv4 192 0 0 0, 24), (ipv4 192 0 2 0, 24),
    (ipv4 192 88 99 2, 32), (ipv4 192 168 0 0, 16), (ipv4 198 18 0 0, 15), (ipv4 198 51 100 0, 24),
    (ipv4 203 0 113 0, 24), (ipv4 224 0 0 0, 4), (ipv4 240 0 0 0, 4)]

def ipv4PublicExceptions : List (Nat × Nat) := [(ipv4 192 0 0 9, 32), (ipv4 192 0 0 10, 32)]

def ipv6ForbiddenRanges : List (Nat × Nat) :=
  [(ipv6 0 0 0 0 0 0 0 0, 8), (ipv6 0x0100 0 0 0 0 0 0 0, 8), (ipv6 0x0200 0 0 0 0 0 0 0, 7),
    (ipv6 0x0400 0 0 0 0 0 0 0, 6), (ipv6 0x0800 0 0 0 0 0 0 0, 5), (ipv6 0x1000 0 0 0 0 0 0 0, 4),
    (ipv6 0x4000 0 0 0 0 0 0 0, 3), (ipv6 0x6000 0 0 0 0 0 0 0, 3), (ipv6 0x8000 0 0 0 0 0 0 0, 3),
    (ipv6 0xa000 0 0 0 0 0 0 0, 3), (ipv6 0xc000 0 0 0 0 0 0 0, 3), (ipv6 0xe000 0 0 0 0 0 0 0, 4),
    (ipv6 0xf000 0 0 0 0 0 0 0, 5), (ipv6 0xf800 0 0 0 0 0 0 0, 6), (ipv6 0xfc00 0 0 0 0 0 0 0, 7),
    (ipv6 0xfe00 0 0 0 0 0 0 0, 9), (ipv6 0xfe80 0 0 0 0 0 0 0, 10),
    (ipv6 0xfec0 0 0 0 0 0 0 0, 10), (ipv6 0xff00 0 0 0 0 0 0 0, 8),
    (ipv6 0 0 0 0 0 0xffff 0 0, 96), (ipv6 0x0064 0xff9b 1 0 0 0 0 0, 48),
    (ipv6 0x0100 0 0 0 0 0 0 0, 64), (ipv6 0x0100 0 0 1 0 0 0 0, 64),
    (ipv6 0x2001 0 0 0 0 0 0 0, 23), (ipv6 0x2001 0x0db8 0 0 0 0 0 0, 32),
    (ipv6 0x2002 0 0 0 0 0 0 0, 16), (ipv6 0x3fff 0 0 0 0 0 0 0, 20),
    (ipv6 0x5f00 0 0 0 0 0 0 0, 16)]

def ipv6PublicExceptions : List (Nat × Nat) :=
  [(ipv6 0x0064 0xff9b 0 0 0 0 0 0, 96), (ipv6 0x2001 1 0 0 0 0 0 1, 128),
    (ipv6 0x2001 1 0 0 0 0 0 2, 128), (ipv6 0x2001 1 0 0 0 0 0 3, 128),
    (ipv6 0x2001 3 0 0 0 0 0 0, 32), (ipv6 0x2001 4 0x0112 0 0 0 0 0, 48),
    (ipv6 0x2001 0x0020 0 0 0 0 0 0, 28), (ipv6 0x2001 0x0030 0 0 0 0 0 0, 28)]

def isForbiddenEndpointIp : IpAddr → Bool
  | .v4 bits => inRanges 32 bits ipv4ForbiddenRanges && !inRanges 32 bits ipv4PublicExceptions
  | .v6 bits => inRanges 128 bits ipv6ForbiddenRanges && !inRanges 128 bits ipv6PublicExceptions

def isIpv4Mapped : IpAddr → Bool
  | .v4 _ => false
  | .v6 bits => bits >>> 32 == 0xffff

/-! ### Hosts -/

structure Url where
  scheme : Text
  username : Text
  password : Option Text
  hostStr : Option Text
  portOrKnownDefault : Option Nat
  query : Option Text
  fragment : Option Text
deriving DecidableEq

/-- What is given: the readers of URLs and addresses, the resolver, and the check that a presigned
URL is valid long enough. -/
structure Net where
  parseUrl : Text → Option Url
  parseIp : Text → Option IpAddr
  ipText : IpAddr → Text
  resolve : Text → Nat → Option (List IpAddr)
  validateExpiry : Url → Nat → Except String Unit

inductive TrustedHostPattern where
  | exact (allowed : Text)
  | suffix (domain : Text)
deriving DecidableEq

def TrustedHostPattern.matches (host : Text) : TrustedHostPattern → Bool
  | .exact allowed => host == allowed
  | .suffix domain => (host.dropSuffix? domain).any fun front =>
      decide (1 < front.length) && front.getLast? == some 0x2e

def isAsciiAlphanumeric (b : UInt8) : Bool :=
  (0x61 ≤ b && b ≤ 0x7a) || (0x41 ≤ b && b ≤ 0x5a) || isAsciiDigit b

def Net.validateDnsName (net : Net) (host : Text) : Except String Unit :=
  if host = [] ∨ 253 < host.length ∨ host.any (0x80 ≤ ·) ∨ (net.parseIp host).isSome ∨
      host.getLast? = some 0x2e then
    .error "workspace endpoint allowlist contains an invalid hostname"
  else if (host.splitOn 0x2e).any fun label => label == [] || 63 < label.length ||
      label.head? == some 0x2d || label.getLast? == some 0x2d ||
      !label.all fun b => isAsciiAlphanumeric b || b == 0x2d then
    .error "workspace endpoint allowlist contains an invalid hostname"
  else .ok ()

def Net.normalizeEndpointHost (net : Net) (host : Text) : Except String Text :=
  let host := toAsciiLowercase
    (((host.dropPrefix? (ascii "[")).bind (·.dropSuffix? (ascii "]"))).getD host)
  if host.getLast? = some 0x2e then .error "workspace endpoint host must not have a trailing dot"
  else match net.parseIp host with
    | none => .ok host
    | some ip =>
      if isIpv4Mapped ip then .error "workspace endpoint uses a forbidden IPv4-mapped IPv6 address"
      else .ok (net.ipText ip)

/-! ### Policies -/

structure WorkspaceEndpointPolicy where
  explicitSingleTenant : Bool
  trustedHosts : List TrustedHostPattern
  privateAllowedHosts : List Text
  net : Net

/-- What is behind `://`. -/
def remainder : Text → Text
  | [] => []
  | b :: rest => if ascii "://" <+: b :: rest then rest.drop 2 else remainder rest

namespace WorkspaceEndpointPolicy

variable (p : WorkspaceEndpointPolicy)

/-- `validate` up to the lookup: the URL, its host and its port. -/
def target (endpoint : Text) : Except String (Url × Text × Nat) := do
  if endpoint.any (0x80 ≤ ·) then .error "workspace endpoint must use an ASCII hostname"
  if ((remainder endpoint).takeWhile (· ∉ ascii "/?#")).any fun b => 0x41 ≤ b && b ≤ 0x5a then
    .error "workspace endpoint host must be lowercase"
  let url ← (p.net.parseUrl endpoint).elim
    (.error "workspace endpoint must be an absolute HTTP(S) URL") .ok
  if url.scheme = ascii "http" ∧ p.explicitSingleTenant = false then
    .error "workspace endpoints require HTTPS"
  if url.scheme ≠ ascii "https" ∧ url.scheme ≠ ascii "http" then
    .error "workspace endpoint URL scheme is not supported"
  if url.username ≠ [] ∨ url.password.isSome ∨ url.query.isSome ∨ url.fragment.isSome then
    .error "workspace endpoint userinfo, query strings, and fragments are forbidden"
  let host ← url.hostStr.elim (.error "workspace endpoint must have a host") .ok
  let host ← p.net.normalizeEndpointHost host
  let literalIp := p.net.parseIp host
  if literalIp = none then p.net.validateDnsName host
  if p.explicitSingleTenant = false then
    if literalIp.isSome then
      .error "multi-tenant workspace endpoints require a trusted provider hostname"
    if p.trustedHosts.any (·.matches host) = false then
      .error "workspace endpoint host is not in S4_WORKSPACE_ENDPOINT_ALLOWLIST"
  let port ← url.portOrKnownDefault.elim (.error "workspace endpoint has no usable port") .ok
  return (url, host, port)

def validate (endpoint : Text) : Except String Url := do
  let (url, host, port) ← p.target endpoint
  match p.net.resolve host port with
  | none => .error "workspace endpoint DNS resolution failed"
  | some addresses =>
    if addresses = [] then .error "workspace endpoint DNS resolution returned no addresses"
    else if addresses.any isIpv4Mapped then
      .error "workspace endpoint uses a forbidden IPv4-mapped IPv6 address"
    else if addresses.any isForbiddenEndpointIp ∧
        (p.explicitSingleTenant = false ∨ host ∉ p.privateAllowedHosts) then
      .error "workspace endpoint resolves to a forbidden address range"
    else .ok url

end WorkspaceEndpointPolicy

structure PresignedHttpPolicy where
  allowedHosts : List TrustedHostPattern
  privateAllowedHosts : List Text
  allowHttp : Bool
  minimumValidity : Nat
  net : Net

/-- A client goes to the address that has been checked. -/
structure Client where
  host : Text
  pinned : IpAddr
deriving DecidableEq

namespace PresignedHttpPolicy

variable (p : PresignedHttpPolicy)

def hostAllowed (host : Text) : Bool :=
  p.privateAllowedHosts.contains host || p.allowedHosts.any (·.matches host)

/-- `client_for_operation` up to the lookup: the host and the port. -/
def target (url : Url) (minimumValidity : Nat) (requireHttps : Bool) :
    Except String (Text × Nat) := do
  let host ← url.hostStr.elim (.error "presigned URL must have a host") .ok
  let host := toAsciiLowercase host
  if p.hostAllowed host = false then
    .error "presigned URL host is not in S4_PRESIGNED_HTTP_ALLOWLIST"
  if url.scheme = ascii "http" ∧ (p.allowHttp = false ∨ requireHttps) then
    .error "presigned HTTP sources require HTTPS"
  if url.scheme ≠ ascii "https" ∧ url.scheme ≠ ascii "http" then
    .error "presigned source URL scheme is not supported"
  if url.username ≠ [] ∨ url.password.isSome ∨ url.fragment.isSome then
    .error "presigned URL userinfo and fragments are forbidden"
  p.net.validateExpiry url minimumValidity
  let port ← url.portOrKnownDefault.elim (.error "presigned URL has no usable port") .ok
  return (host, port)

def clientForOperation (url : Url) (minimumValidity : Nat) (requireHttps : Bool) :
    Except String Client := do
  let (host, port) ← p.target url minimumValidity requireHttps
  match p.net.resolve host port with
  | none => .error "presigned URL DNS resolution failed"
  | some [] => .error "presigned URL DNS resolution returned no addresses"
  | some (address :: addresses) =>
    if (address :: addresses).any isIpv4Mapped ∨
        (host ∉ p.privateAllowedHosts ∧ (address :: addresses).any isForbiddenEndpointIp) then
      .error "presigned URL resolves to a forbidden address range"
    else .ok ⟨host, address⟩

def clientFor (url : Url) : Except String Client :=
  p.clientForOperation url p.minimumValidity false

end PresignedHttpPolicy

/-! ### Embedded addresses -/

inductive Embedding where
  | mapped
  | sixToFour
  | nat64
deriving DecidableEq

/-- An IPv6 address that holds an IPv4 one which is forbidden; behind that of 6to4 there is more. -/
structure Embedded where
  embedding : Embedding
  address : Nat
  subnet : Nat
  forbidden : isForbiddenEndpointIp (.v4 address) = true
  address_lt : address < 2 ^ 32
  subnet_lt : subnet < 2 ^ 80

def Embedded.ip (e : Embedded) : IpAddr :=
  .v6 (match e.embedding with
    | .mapped => ipv6 0 0 0 0 0 0xffff 0 0 + e.address
    | .sixToFour => ipv6 0x2002 0 0 0 0 0 0 0 + e.address * 2 ^ 80 + e.subnet
    | .nat64 => ipv6 0x0064 0xff9b 0 0 0 0 0 0 + e.address)

/-- No host without a private exception that resolves to the address is accepted. -/
structure Refused (ip : IpAddr) : Prop where
  endpoint : ∀ (p : WorkspaceEndpointPolicy) (endpoint : Text),
    (∀ url host port, p.target endpoint = .ok (url, host, port) →
      (p.explicitSingleTenant = false ∨ host ∉ p.privateAllowedHosts) ∧
        ∃ addresses, p.net.resolve host port = some addresses ∧ ip ∈ addresses) →
    ∃ e, p.validate endpoint = .error e
  presigned : ∀ (p : PresignedHttpPolicy) (url : Url),
    (∀ host port, p.target url p.minimumValidity false = .ok (host, port) →
      host ∉ p.privateAllowedHosts ∧
        ∃ addresses, p.net.resolve host port = some addresses ∧ ip ∈ addresses) →
    ∃ e, p.clientFor url = .error e

variable {ip : IpAddr}

theorem Refused.of_judged (h : isIpv4Mapped ip = true ∨ isForbiddenEndpointIp ip = true) :
    Refused ip where
  endpoint p endpoint hreach := by
    rw [WorkspaceEndpointPolicy.validate]
    cases htarget : p.target endpoint with
    | error e => exact ⟨e, rfl⟩
    | ok target =>
      obtain ⟨url, host, port⟩ := target
      obtain ⟨hprivate, addresses, hresolve, hip⟩ := hreach url host port htarget
      simp only [hresolve, ok_bind]
      split
      · exact ⟨_, rfl⟩
      split
      · exact ⟨_, rfl⟩
      next hmapped =>
      have hforbidden : addresses.any isForbiddenEndpointIp = true := by
        refine List.any_eq_true.mpr ⟨ip, hip, h.resolve_left fun hm => hmapped ?_⟩
        exact List.any_eq_true.mpr ⟨ip, hip, hm⟩
      rw [if_pos ⟨hforbidden, hprivate⟩]
      exact ⟨_, rfl⟩
  presigned p url hreach := by
    rw [PresignedHttpPolicy.clientFor, PresignedHttpPolicy.clientForOperation]
    cases htarget : p.target url p.minimumValidity false with
    | error e => exact ⟨e, rfl⟩
    | ok target =>
      obtain ⟨host, port⟩ := target
      obtain ⟨hprivate, addresses, hresolve, hip⟩ := hreach host port htarget
      simp only [hresolve, ok_bind]
      cases addresses with
      | nil => exact ⟨_, rfl⟩
      | cons address addresses =>
        have hany : ∀ {f : IpAddr → Bool}, f ip = true → (address :: addresses).any f = true :=
          fun hf => List.any_eq_true.mpr ⟨ip, hip, hf⟩
        exact ⟨_, if_pos (h.imp (hany ·) fun hf => ⟨hprivate, hany hf⟩)⟩

/-- A network in which every name is at one address. -/
def netAt (ip : IpAddr) : Net where
  parseUrl _ := some ⟨ascii "https", [], none, some (ascii "s3.test"), some 443, none, none⟩
  parseIp _ := none
  ipText _ := []
  resolve _ _ := some [ip]
  validateExpiry _ _ := .ok ()

def workspaceAt (ip : IpAddr) : WorkspaceEndpointPolicy :=
  ⟨false, [.exact (ascii "s3.test")], [], netAt ip⟩

/-- The checks before the lookup pass, and so does an address that is not judged. -/
theorem validate_workspaceAt (hmapped : isIpv4Mapped ip = false)
    (hpublic : isForbiddenEndpointIp ip = false) :
    (workspaceAt ip).validate (ascii "https://s3.test") =
      .ok ⟨ascii "https", [], none, some (ascii "s3.test"), some 443, none, none⟩ := by
  have htarget : (workspaceAt ip).target (ascii "https://s3.test") =
      .ok (⟨ascii "https", [], none, some (ascii "s3.test"), some 443, none, none⟩, ascii "s3.test",
        443) := by
    change (workspaceAt (.v4 0)).target (ascii "https://s3.test") = _
    decide +kernel
  rw [WorkspaceEndpointPolicy.validate, htarget]
  simp [workspaceAt, netAt, hmapped, hpublic]

theorem inRanges_of_mem {width bits network n : Nat} {ranges : List (Nat × Nat)}
    (h : (network, n) ∈ ranges) (hbits : bits >>> (width - n) = network >>> (width - n)) :
    inRanges width bits ranges = true :=
  List.any_eq_true.mpr ⟨_, h, beq_iff_eq.mpr hbits⟩

/-- **An embedded address is refused** exactly if it is not in the translated form. -/
theorem embedded_refused_iff (e : Embedded) : Refused e.ip ↔ e.embedding ≠ .nat64 := by
  have haddress := e.address_lt
  have hsubnet := e.subnet_lt
  rw [Embedded.ip]
  cases e.embedding with
  | mapped =>
    refine iff_of_true (.of_judged (.inl ?_)) (by decide)
    simp only [isIpv4Mapped, Nat.shiftRight_eq_div_pow, beq_iff_eq, ipv6]
    omega
  | sixToFour =>
    refine iff_of_true (.of_judged (.inr ?_)) (by decide)
    rw [isForbiddenEndpointIp, Bool.and_eq_true, Bool.not_eq_true']
    constructor
    · refine inRanges_of_mem (show (ipv6 0x2002 0 0 0 0 0 0 0, 16) ∈ _ by decide) ?_
      simp only [Nat.shiftRight_eq_div_pow, ipv6]
      omega
    · simp only [inRanges, ipv6PublicExceptions, ipv6, Nat.shiftRight_eq_div_pow, List.any_cons,
        List.any_nil, Bool.or_eq_false_iff, beq_eq_false_iff_ne, eq_self, and_true, Nat.reduceSub,
        Nat.reducePow]
      omega
  | nat64 =>
    refine iff_of_false (fun h => ?_) (by decide)
    obtain ⟨error, herror⟩ := h.endpoint (workspaceAt _) (ascii "https://s3.test")
      fun _ _ _ _ => ⟨.inl rfl, _, rfl, List.mem_singleton_self _⟩
    rw [validate_workspaceAt] at herror
    · cases herror
    · simp only [isIpv4Mapped, Nat.shiftRight_eq_div_pow, beq_eq_false_iff_ne, ipv6]
      omega
    · -- the translated form is among the exceptions
      rw [isForbiddenEndpointIp, Bool.and_eq_false_iff, Bool.not_eq_false']
      refine .inr (inRanges_of_mem (show (ipv6 0x0064 0xff9b 0 0 0 0 0 0, 96) ∈ _ by decide) ?_)
      simp only [Nat.shiftRight_eq_div_pow, ipv6]
      omega

/-- The loopback address is forbidden, but both policies accept its translated form. -/
theorem nat64_loopback_accepted :
    isForbiddenEndpointIp (.v4 (ipv4 127 0 0 1)) = true ∧
      (workspaceAt (.v6 (ipv6 0x64 0xff9b 0 0 0 0 0x7f00 1))).validate (ascii "https://s3.test") =
        .ok ⟨ascii "https", [], none, some (ascii "s3.test"), some 443, none, none⟩ ∧
      PresignedHttpPolicy.clientFor
          ⟨[.exact (ascii "s3.test")], [], false, 0,
            netAt (.v6 (ipv6 0x64 0xff9b 0 0 0 0 0x7f00 1))⟩
          ⟨ascii "https", [], none, some (ascii "s3.test"), some 443, none, none⟩ =
        .ok ⟨ascii "s3.test", .v6 (ipv6 0x64 0xff9b 0 0 0 0 0x7f00 1)⟩ := by
  decide +kernel

end S4.Endpoints
