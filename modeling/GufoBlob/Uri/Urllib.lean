import GufoBlob.Data.Dict
import GufoBlob.Uri.Percent
import GufoBlob.Utils

/-!
# `urllib.parse`

What the `parse_url` methods use of `urllib.parse`: `urlparse`, the accessors of its result,
`unquote` and `parse_qs`. The Unicode database and the module `ipaddress` are a parameter, `Python`.

`urlsplit` and `port` are the two that raise (`ValueError`): the first for an authority that
`checkNetloc` refuses, the second for a port that is no number below 65536.
-/

namespace GufoBlob

open Text Data

/-- The classes of `ipaddress`. -/
inductive IPVersion where
  | ipv4
  | ipv6

/-- What depends on the Unicode database, and the addresses that `ipaddress` accepts. -/
structure Python where
  /-- `s.lower()`. -/
  lower : Str → Str
  /-- `unicodedata.normalize("NFKC", s)`. -/
  nfkc : Str → Str
  /-- `repr(s)`. -/
  repr : Str → Str
  /-- The value of a decimal digit. -/
  decimal : Char → Option Nat
  /-- `c.isspace()`. -/
  space : Char → Bool
  /-- The class of `ipaddress.ip_address(s)`, or `none` where that raises `ValueError`. -/
  ipAddress : Str → Option IPVersion

/-- `int(s)` of a `str`: digits and spaces outside ASCII are converted first. -/
def pyIntStr (py : Python) (s : Str) : Option Int :=
  pyInt <| s.map fun c =>
    if c.toNat < 128 then UInt8.ofNat c.toNat
    else if py.space c then 32
    else match py.decimal c with
      | some d => UInt8.ofNat (48 + d)
      | none => 63

namespace Uri

/-- `s.lower()` of an ASCII text changes its capital letters. -/
def LowersAscii (py : Python) : Prop :=
  ∀ s : Str, (∀ c ∈ s, c.toNat < 128) → py.lower s = s.map Char.toLower

/-! ## Cutting a string -/

/-- `s.partition(c)`: what is before the first `c`, and what follows it if there is one. -/
def partition (c : Char) (s : Str) : Str × Option Str :=
  match s.dropWhile (· != c) with
  | [] => (s, none)
  | _ :: rest => (s.takeWhile (· != c), some rest)

/-- `s.rpartition(c)`: what is before the last `c`, if there is one, and what follows it. -/
def rpartition (c : Char) (s : Str) : Option Str × Str :=
  match partition c s.reverse with
  | (after, none) => (none, after.reverse)
  | (after, some before) => (some before.reverse, after.reverse)

/-- `s or default`. -/
def orElse (s : Option Str) (default : Str) : Str :=
  match s with
  | some (c :: cs) => c :: cs
  | _ => default

/-! ## `urlsplit` -/

/-- `_WHATWG_C0_CONTROL_OR_SPACE`. -/
def isC0OrSpace (c : Char) : Bool := c.toNat ≤ 32

/-- `_UNSAFE_URL_BYTES_TO_REMOVE`. -/
def isUnsafe (c : Char) : Bool := c = '\t' || c = '\r' || c = '\n'

def isSchemeChar (c : Char) : Bool := c.isAlphanum || c = '+' || c = '-' || c = '.'

structure SplitResult where
  scheme : Str
  netloc : Str
  path : Str
  query : Str
  fragment : Str
  deriving DecidableEq

/-- The scheme, which needs a letter in front and a colon behind, and the rest. -/
def splitScheme (url : Str) : Str × Str :=
  match partition ':' url with
  | (c :: cs, some rest) =>
      if c.isAlpha && (c :: cs).all isSchemeChar then ((c :: cs).map Char.toLower, rest)
      else ([], url)
  | _ => ([], url)

/-- `_splitnetloc(url, 2)`, when there is a netloc. -/
def splitNetloc : Str → Str × Str
  | '/' :: '/' :: rest => rest.span fun c => !(c = '/' || c = '?' || c = '#')
  | url => ([], url)

/-- The components of a URL. -/
def split (url : Str) : SplitResult :=
  let url := (lstrip isC0OrSpace url).filter fun c => !isUnsafe c
  let (scheme, url) := splitScheme url
  let (netloc, url) := splitNetloc url
  let (url, fragment) := partition '#' url
  let (url, query) := partition '?' url
  { scheme, netloc, path := url, query := query.getD [], fragment := fragment.getD [] }

/-- `_check_bracketed_host`. The form of a future version is `v`, hexadecimal digits, `.` and
something without a line feed. -/
def checkBracketedHost (py : Python) (hostname : Str) : Except PyExc Unit :=
  match hostname with
  | 'v' :: rest =>
      let (version, address) := partition '.' rest
      if !version.isEmpty && version.all (fun c => (hexVal c).isSome) &&
          address.any (fun a => !a.isEmpty && !a.contains '\n') then
        .ok ()
      else .error (.valueError "IPvFuture address is invalid")
  | _ =>
      match py.ipAddress hostname with
      | none => .error (.valueError
          (fmt (py.repr hostname) ++ " does not appear to be an IPv4 or IPv6 address"))
      | some .ipv4 => .error (.valueError "An IPv4 address cannot be in brackets")
      | some .ipv6 => .ok ()

/-- `_checknetloc`: the netloc has no character that turns into a delimiter. -/
def checkNfkc (py : Python) (netloc : Str) : Bool :=
  netloc.all (fun c => c.toNat < 128) ||
    let n := netloc.filter fun c => !(c = '@' || c = ':' || c = '#' || c = '?')
    n = py.nfkc n ||
      !(py.nfkc n).any fun c => c = '/' || c = '?' || c = '#' || c = '@' || c = ':'

/-- The checks of `urlsplit`. -/
def checkNetloc (py : Python) (netloc : Str) : Except PyExc Unit := do
  if netloc.contains '[' != netloc.contains ']' then
    throw (.valueError "Invalid IPv6 URL")
  if netloc.contains '[' && netloc.contains ']' then
    checkBracketedHost py (partition ']' ((partition '[' netloc).2.getD [])).1
  if !checkNfkc py netloc then
    throw (.valueError ("netloc '" ++ fmt netloc ++
      "' contains invalid characters under NFKC normalization"))

def urlsplit (py : Python) (url : Str) : Except PyExc SplitResult := do
  checkNetloc py (split url).netloc
  return split url

/-! ## `urlparse` -/

/-- `uses_params`, as far as the callers come to it. -/
def usesParams : List Str :=
  ["", "ftp", "hdl", "prospero", "http", "imap", "https", "shttp", "rtsp", "rtsps", "rtspu", "sip",
    "sips", "mms", "sftp", "tel"].map String.toList

/-- `_splitparams`: cuts at the first `;` after the last slash. -/
def splitParams (url : Str) : Str :=
  match rpartition '/' url with
  | (some dir, name) => dir ++ '/' :: (partition ';' name).1
  | (none, name) => (partition ';' name).1

/-- A `ParseResult` without its `params`. -/
def urlparse (py : Python) (url : Str) : Except PyExc SplitResult := do
  let u ← urlsplit py url
  if u.scheme ∈ usesParams then
    return { u with path := splitParams u.path }
  else
    return u

namespace SplitResult

variable (u : SplitResult)

/-- `_userinfo`. -/
def userinfo : Option Str × Option Str :=
  match rpartition '@' u.netloc with
  | (some userinfo, _) => (some (partition ':' userinfo).1, (partition ':' userinfo).2)
  | (none, _) => (none, none)

def username : Option Str := u.userinfo.1

def password : Option Str := u.userinfo.2

/-- `_hostinfo`: the host, and the port if there is one. -/
def hostinfo : Str × Option Str :=
  let hostinfo := (rpartition '@' u.netloc).2
  match partition '[' hostinfo with
  | (_, some bracketed) =>
      let (hostname, rest) := partition ']' bracketed
      (hostname, ((partition ':' (rest.getD [])).2).filter fun port => !port.isEmpty)
  | (_, none) =>
      let (hostname, port) := partition ':' hostinfo
      (hostname, port.filter fun port => !port.isEmpty)

/-- `hostname`, in lower case up to the zone of an IPv6 address. -/
def hostname (py : Python) : Option Str :=
  match u.hostinfo.1 with
  | [] => none
  | host =>
      match partition '%' host with
      | (host, none) => some (py.lower host)
      | (host, some zone) => some (py.lower host ++ '%' :: zone)

/-- The number that a port is written as. -/
def portNumber (port : Str) : Option Nat :=
  if port.all Char.isDigit then
    let n := port.foldl (fun n c => 10 * n + (c.toNat - 48)) 0
    if n ≤ 65535 then some n else none
  else none

def port (py : Python) : Except PyExc (Option Nat) :=
  match u.hostinfo.2 with
  | none => .ok none
  | some port =>
      match portNumber port with
      | some n => .ok (some n)
      | none =>
          if port.all Char.isDigit then .error (.valueError "Port out of range 0-65535")
          else .error (.valueError ("Port could not be cast to integer value as " ++
            fmt (py.repr port)))

end SplitResult

/-! ## Percent-decoding -/

/-- A sequence of octets that is not complete: how many are missing, between which bounds the next
one lies, and the bits so far. -/
structure Pending where
  need : Nat
  lo : Nat
  hi : Nat
  bits : Nat

def replacementChar : Char := Char.ofNat 0xFFFD

/-- The first octet of a sequence. -/
def firstOctet (b : Nat) : Str × Option Pending :=
  if b < 0x80 then ([Char.ofNat b], none)
  else if 0xC2 ≤ b ∧ b ≤ 0xDF then ([], some ⟨1, 0x80, 0xBF, b - 0xC0⟩)
  else if b = 0xE0 then ([], some ⟨2, 0xA0, 0xBF, 0⟩)
  else if b = 0xED then ([], some ⟨2, 0x80, 0x9F, 0xD⟩)
  else if 0xE1 ≤ b ∧ b ≤ 0xEF then ([], some ⟨2, 0x80, 0xBF, b - 0xE0⟩)
  else if b = 0xF0 then ([], some ⟨3, 0x90, 0xBF, 0⟩)
  else if b = 0xF4 then ([], some ⟨3, 0x80, 0x8F, 4⟩)
  else if 0xF1 ≤ b ∧ b ≤ 0xF3 then ([], some ⟨3, 0x80, 0xBF, b - 0xF0⟩)
  else ([replacementChar], none)

def decodeFrom : Option Pending → Bytes → Str
  | none, [] => []
  | some _, [] => [replacementChar]
  | none, b :: bs => (firstOctet b.toNat).1 ++ decodeFrom (firstOctet b.toNat).2 bs
  | some p, b :: bs =>
      if p.lo ≤ b.toNat ∧ b.toNat ≤ p.hi then
        let bits := 64 * p.bits + (b.toNat - 0x80)
        if p.need = 1 then Char.ofNat bits :: decodeFrom none bs
        else decodeFrom (some ⟨p.need - 1, 0x80, 0xBF, bits⟩) bs
      else
        -- the octets so far are replaced together, and `b` starts over
        replacementChar :: (firstOctet b.toNat).1 ++ decodeFrom (firstOctet b.toNat).2 bs

/-- `b.decode("utf-8", "replace")`. -/
def decodeReplace (b : Bytes) : Str := decodeFrom none b

/-- `unquote(s)`. -/
def unquote (s : Str) : Str := decodeReplace (percentDecode s)

/-- `unquote_plus(s)`. -/
def unquotePlus (s : Str) : Str := unquote (s.map fun c => if c = '+' then ' ' else c)

/-- `parse_qsl(qs, keep_blank_values)`. -/
def parseQsl (qs : Str) (keepBlankValues : Bool) : List (Str × Str) :=
  (qs.splitOn '&').filterMap fun nameValue =>
    if nameValue.isEmpty then none
    else
      let (name, value) := partition '=' nameValue
      if !(value.getD []).isEmpty || keepBlankValues then
        some (unquotePlus name, unquotePlus (value.getD []))
      else none

/-- `parse_qs(qs, keep_blank_values)`. -/
def parseQs (qs : Str) (keepBlankValues : Bool) : Dict Str (List Str) :=
  (parseQsl qs keepBlankValues).foldl
    (fun params nv => params.set nv.1 ((params.get? nv.1).getD [] ++ [nv.2])) .empty

/-- `qs.get(name, [default])[0]`. -/
def firstParam (params : Dict Str (List Str)) (name default : Str) : Str :=
  ((params.get? name).getD [default]).headD default

/-! ## Which calls raise -/

/-- The result of `urlparse` where it returns. -/
def parsed (url : Str) : SplitResult :=
  if (split url).scheme ∈ usesParams then { split url with path := splitParams (split url).path }
  else split url

theorem urlparse_of_ok {py : Python} {url : Str} (h : checkNetloc py (split url).netloc = .ok ()) :
    urlparse py url = .ok (parsed url) := by
  unfold urlparse urlsplit parsed
  rw [h]
  dsimp only [Bind.bind, Except.bind, Pure.pure, Except.pure]
  split <;> rfl

theorem urlparse_of_error {py : Python} {url : Str} {e : PyExc}
    (h : checkNetloc py (split url).netloc = .error e) : urlparse py url = .error e := by
  unfold urlparse urlsplit
  rw [h]
  rfl

theorem valueError_of_checkBracketedHost {py : Python} {hostname : Str} {e : PyExc}
    (h : checkBracketedHost py hostname = .error e) : ∃ msg, e = .valueError msg := by
  unfold checkBracketedHost at h
  repeat' split at h
  all_goals cases h <;> exact ⟨_, rfl⟩

theorem valueError_of_checkNetloc {py : Python} {netloc : Str} {e : PyExc}
    (h : checkNetloc py netloc = .error e) : ∃ msg, e = .valueError msg := by
  unfold checkNetloc at h
  rcases hhost : checkBracketedHost py (partition ']' ((partition '[' netloc).2.getD [])).1 with e' | u
  all_goals
    rw [hhost] at h
    dsimp only [Bind.bind, Except.bind, Pure.pure, Except.pure, throw, throwThe,
      MonadExceptOf.throw] at h
    repeat' split at h
  any_goals cases h <;> exact ⟨_, rfl⟩
  exact Except.error.inj h ▸ valueError_of_checkBracketedHost hhost

theorem valueError_of_port {py : Python} {u : SplitResult} {e : PyExc}
    (h : u.port py = .error e) : ∃ msg, e = .valueError msg := by
  unfold SplitResult.port at h
  repeat' split at h
  all_goals cases h <;> exact ⟨_, rfl⟩

end Uri

end GufoBlob
