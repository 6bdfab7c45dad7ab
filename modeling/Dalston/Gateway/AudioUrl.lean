import Dalston.Model.TextWrap

/-!
# Downloads of submitted audio URLs

A client submits the URL of an audio file. The gateway rewrites share links,
looks up the host once and refuses the URL when an address of the answer is
internal. Then the HTTP client fetches the URL. It makes lookups of its own, one
for each host it connects to, and follows redirects.

## Implementation notes

Texts are lists of characters. The parts of the standard library that rest on
Unicode tables, and the HTTP client, are arguments. An answer of the resolver
belongs to one lookup: the check makes the first, the client the others. What is
read of a response after the last request is left out.
-/

namespace Dalston.Gateway.AudioUrl

open Model.TextWrap (Text strip)

/-- The parts of the standard library that rest on Unicode tables. -/
structure TextLib where
  /-- `str.lower`. -/
  lower : Text → Text
  /-- `unquote_plus`. -/
  unquotePlus : Text → Text
  /-- `urlsplit` accepts the brackets and the characters of a network location. -/
  netlocValid : Text → Bool

section Texts

/-- What stands before the first occurrence of a character, and after it. -/
def splitFirst (c : Char) (s : Text) : Text × Option Text :=
  match s.dropWhile (· ≠ c) with
  | [] => (s, none)
  | _ :: rest => (s.takeWhile (· ≠ c), some rest)

/-- What stands after the last occurrence of a character. -/
def afterLast (c : Char) (s : Text) : Text := (s.reverse.takeWhile (· ≠ c)).reverse

/-- Replace the occurrences of a text from the left, after some characters that are skipped. -/
def replaceFrom (old new : Text) : Nat → Text → Text
  | _, [] => []
  | skip + 1, _ :: rest => replaceFrom old new skip rest
  | 0, c :: rest =>
      if old.isPrefixOf (c :: rest) then new ++ replaceFrom old new (old.length - 1) rest
      else c :: replaceFrom old new 0 rest

/-- The first longest run of characters after an occurrence of a text, if it is not empty. -/
def searchRun (start : Text) (allowed : Char → Bool) : Text → Option Text
  | [] => none
  | c :: rest =>
      let run := ((c :: rest).drop start.length).takeWhile allowed
      if start.isPrefixOf (c :: rest) && run ≠ [] then some run else searchRun start allowed rest

end Texts

section Urls

structure ParsedUrl where
  scheme : Text
  netloc : Text
  path : Text
  query : Text

def schemeChar (c : Char) : Bool := c.isAlphanum || c ∈ ['+', '-', '.']

def splitScheme (url : Text) : Text × Text :=
  match splitFirst ':' url with
  | (c :: before, some rest) =>
      if c.isAlpha && (c :: before).all schemeChar then ((c :: before).map Char.toLower, rest)
      else ([], url)
  | _ => ([], url)

/-- The parameters of the last segment are cut off. -/
def splitParams (path : Text) : Text :=
  let last := afterLast '/' path
  path.take (path.length - last.length) ++ last.takeWhile (· ≠ ';')

variable (lib : TextLib)

/-- `urlparse`, which raises on some network locations. -/
def urlparse (url : Text) : Option ParsedUrl :=
  let url := (url.dropWhile fun c => c.toNat ≤ 0x20).filter (· ∉ ['\t', '\r', '\n'])
  let (scheme, url) := splitScheme url
  let netloc :=
    if ['/', '/'].isPrefixOf url then (url.drop 2).takeWhile (· ∉ ['/', '?', '#']) else []
  let url := if ['/', '/'].isPrefixOf url then url.drop (2 + netloc.length) else url
  let (path, query) := splitFirst '?' (splitFirst '#' url).1
  if lib.netlocValid netloc then some ⟨scheme, netloc, splitParams path, query.getD []⟩ else none

/-- The `hostname` of a parsed URL. -/
def ParsedUrl.hostname (parsed : ParsedUrl) : Option Text :=
  let hostinfo := afterLast '@' parsed.netloc
  let hostname :=
    match splitFirst '[' hostinfo with
    | (_, some bracketed) => (splitFirst ']' bracketed).1
    | (_, none) => (splitFirst ':' hostinfo).1
  if hostname = [] then none
  else
    match splitFirst '%' hostname with
    | (name, some zone) => some (lib.lower name ++ '%' :: zone)
    | (name, none) => some (lib.lower name)

/-- The first value of a parameter, as `parse_qs` reads the query. -/
def queryValue? (query key : Text) : Option Text :=
  (query.splitOn '&').findSome? fun pair =>
    match splitFirst '=' pair with
    | (name, some value) =>
        if value ≠ [] ∧ lib.unquotePlus name = key then some (lib.unquotePlus value) else none
    | (_, none) => none

def driveHosts : List Text := ["drive.google.com".toList, "docs.google.com".toList]

def dropboxHosts : List Text := ["www.dropbox.com".toList, "dropbox.com".toList]

/-- The characters of `[a-zA-Z0-9_-]`. -/
def fileIdChar (c : Char) : Bool := c.isAlphanum || c ∈ ['_', '-']

def extractGoogleDriveFileId (parsed : ParsedUrl) : Option Text :=
  if parsed.netloc ∉ driveHosts then none
  else (searchRun "/file/d/".toList fileIdChar parsed.path).or
    (queryValue? lib parsed.query "id".toList)

def convertGoogleDriveUrl (parsed : ParsedUrl) : Option Text :=
  (extractGoogleDriveFileId lib parsed).bind fun fileId =>
    if fileId = [] then none
    else some ("https://drive.google.com/uc?export=download&id=".toList ++ fileId)

def convertDropboxUrl (parsed : ParsedUrl) (url : Text) : Option Text :=
  if parsed.netloc ∉ dropboxHosts then none
  else if "dl=0".toList <:+: url then some (replaceFrom "dl=0".toList "dl=1".toList 0 url)
  else if "dl=".toList <:+: url then some url
  else some (url ++ (if '?' ∈ url then '&' else '?') :: "dl=1".toList)

inductive FetchError
  | invalidUrl (message : String)
  /-- `urlparse` raises outside of a `try`. -/
  | valueError
  /-- The client raises, or gives up. -/
  | download

def normalizeUrl (url : Text) : Except FetchError Text :=
  let url := strip url
  if url = [] then .error (.invalidUrl "URL cannot be empty")
  else
    match urlparse lib url with
    | none => .error (.invalidUrl "Invalid URL format")
    | some parsed =>
        if parsed.scheme ∉ ["http".toList, "https".toList] then
          .error (.invalidUrl
            s!"Unsupported URL scheme: {String.ofList parsed.scheme}. Only HTTP/HTTPS allowed.")
        else
          let url := if parsed.scheme = "http".toList then "https".toList ++ url.drop 4 else url
          match urlparse lib url with
          | none => .error .valueError
          | some parsed =>
              .ok (((convertGoogleDriveUrl lib parsed).or (convertDropboxUrl parsed url)).getD url)

end Urls

section Addresses

inductive IpAddress
  | v4 (bits : BitVec 32)
  | v6 (bits : BitVec 128)

/-- A network by the bits of its base and the length of its prefix. -/
structure IpNetwork (w : Nat) where
  base : BitVec w
  prefixLength : Nat

def IpNetwork.contains {w : Nat} (net : IpNetwork w) (a : BitVec w) : Bool :=
  a >>> (w - net.prefixLength) = net.base >>> (w - net.prefixLength)

/-- `a.b.c.d/prefixLength`. -/
def net4 (a b c d prefixLength : Nat) : IpNetwork 32 :=
  ⟨BitVec.ofNat 32 (((a * 256 + b) * 256 + c) * 256 + d), prefixLength⟩

/-- The network whose base begins with the three groups, the others being zero. -/
def net6 (a b c prefixLength : Nat) : IpNetwork 128 :=
  ⟨BitVec.ofNat 128 (((a * 65536 + b) * 65536 + c) * 2 ^ 80), prefixLength⟩

/-- The address with the three groups at its start and one at its end. -/
def host6 (a b c last : Nat) : IpNetwork 128 :=
  ⟨BitVec.ofNat 128 (((a * 65536 + b) * 65536 + c) * 2 ^ 80 + last), 128⟩

def privateNetworks4 : List (IpNetwork 32) :=
  [net4 0 0 0 0 8, net4 10 0 0 0 8, net4 127 0 0 0 8, net4 169 254 0 0 16, net4 172 16 0 0 12,
    net4 192 0 0 0 24, net4 192 0 0 170 31, net4 192 0 2 0 24, net4 192 168 0 0 16,
    net4 198 18 0 0 15, net4 198 51 100 0 24, net4 203 0 113 0 24, net4 240 0 0 0 4,
    net4 255 255 255 255 32]

def privateExceptions4 : List (IpNetwork 32) := [net4 192 0 0 9 32, net4 192 0 0 10 32]

def privateNetworks6 : List (IpNetwork 128) :=
  [host6 0 0 0 1, host6 0 0 0 0, ⟨BitVec.ofNat 128 (0xffff * 2 ^ 32), 96⟩, net6 0x64 0xff9b 1 48,
    net6 0x100 0 0 64, net6 0x2001 0 0 23, net6 0x2001 0xdb8 0 32, net6 0x2002 0 0 16,
    net6 0x3fff 0 0 20, net6 0xfc00 0 0 7, net6 0xfe80 0 0 10]

def privateExceptions6 : List (IpNetwork 128) :=
  [host6 0x2001 1 0 1, host6 0x2001 1 0 2, net6 0x2001 3 0 32, net6 0x2001 4 0x112 48,
    net6 0x2001 0x20 0 28, net6 0x2001 0x30 0 28]

def reservedNetworks6 : List (IpNetwork 128) :=
  [net6 0 0 0 8, net6 0x100 0 0 8, net6 0x200 0 0 7, net6 0x400 0 0 6, net6 0x800 0 0 5,
    net6 0x1000 0 0 4, net6 0x4000 0 0 3, net6 0x6000 0 0 3, net6 0x8000 0 0 3, net6 0xa000 0 0 3,
    net6 0xc000 0 0 3, net6 0xe000 0 0 4, net6 0xf000 0 0 5, net6 0xf800 0 0 6, net6 0xfe00 0 0 9]

/-- The tests of an IPv4 address that `_check_ssrf` makes. -/
def internal4 (a : BitVec 32) : Bool :=
  let isPrivate := privateNetworks4.any (·.contains a) && !privateExceptions4.any (·.contains a)
  let isLoopback := (net4 127 0 0 0 8).contains a
  let isLinkLocal := (net4 169 254 0 0 16).contains a
  let isMulticast := (net4 224 0 0 0 4).contains a
  let isReserved := (net4 240 0 0 0 4).contains a
  let isUnspecified := a = 0
  isPrivate || isLoopback || isLinkLocal || isMulticast || isReserved || isUnspecified

/-- The tests of an IPv6 address that stands for no IPv4 address. -/
def internal6 (a : BitVec 128) : Bool :=
  let isPrivate := privateNetworks6.any (·.contains a) && !privateExceptions6.any (·.contains a)
  let isLoopback := a = 1
  let isLinkLocal := (net6 0xfe80 0 0 10).contains a
  let isMulticast := (net6 0xff00 0 0 8).contains a
  let isReserved := reservedNetworks6.any (·.contains a)
  let isUnspecified := a = 0
  isPrivate || isLoopback || isLinkLocal || isMulticast || isReserved || isUnspecified

/-- An address of `::ffff:0:0/96` is tested as the IPv4 address in it. -/
def IpAddress.internal : IpAddress → Bool
  | v4 bits => internal4 bits
  | v6 bits =>
      if bits >>> 32 = (0xffff : BitVec 128) then internal4 (bits.setWidth 32) else internal6 bits

end Addresses

section Fetch

def MAX_REDIRECTS : Nat := 10

/-- What the model asks of the HTTP client. `R` is the type of its responses. -/
structure HttpClient (R : Type) where
  /-- The host that is connected to for a URL. -/
  host : Text → Option Text
  /-- The URL that the response redirects to. -/
  redirect : Text → R → Option Text

/-- What the network answers, by the number of the lookup and of the request. -/
structure Internet (R : Type) where
  /-- The addresses that a lookup of a host is answered with. -/
  resolve : Nat → Text → Option (List IpAddress)
  /-- Which of the addresses the client connects to. -/
  choose : Nat → Nat
  respond : Nat → Option R

structure Request where
  url : Text
  host : Text
  address : IpAddress

/-- A download: the addresses that passed the check, the requests, and the last response. -/
structure Fetch (R : Type) where
  passed : List IpAddress
  requests : List Request
  result : Except FetchError R

def checkMessage : String :=
  "URLs pointing to private or internal network addresses are not allowed"

/-- `_check_ssrf` on the answer to its lookup: the addresses that pass. -/
def checkSsrf : Option (List IpAddress) → Except FetchError (List IpAddress)
  | none => .ok []
  | some addresses =>
      if addresses.any (·.internal) then .error (.invalidUrl checkMessage) else .ok addresses

variable {R : Type} (lib : TextLib) (client : HttpClient R) (net : Internet R)

/-- The address that the client connects to for its request with the number. -/
def connect (number : Nat) (url : Text) : Option Request := do
  let host ← client.host url
  let addresses ← net.resolve (number + 1) host
  let address ← addresses[net.choose number]?
  return ⟨url, host, address⟩

/-- The requests of the client from one on, as long as it may follow redirects. -/
def send : Nat → Nat → Text → List Request × Except FetchError R
  | redirects, number, url =>
      match connect client net number url with
      | none => ([], .error .download)
      | some request =>
          match net.respond number with
          | none => ([request], .error .download)
          | some response =>
              match client.redirect url response, redirects with
              | none, _ => ([request], .ok response)
              | some _, 0 => ([request], .error .download)
              | some next, redirects + 1 =>
                  let rest := send redirects (number + 1) next
                  (request :: rest.1, rest.2)

/-- The check of `download_audio_from_url` on its normalised URL. -/
def checkUrl (url : Text) : Except FetchError (List IpAddress) :=
  match urlparse lib url with
  | none => .error .valueError
  | some parsed =>
      match parsed.hostname lib with
      | none => .ok []
      | some hostname => checkSsrf (net.resolve 0 hostname)

def downloadAudioFromUrl (url : Text) : Fetch R :=
  match normalizeUrl lib url with
  | .error e => ⟨[], [], .error e⟩
  | .ok normalized =>
      match checkUrl lib net normalized with
      | .error e => ⟨[], [], .error e⟩
      | .ok passed =>
          let sent := send client net MAX_REDIRECTS 0 normalized
          ⟨passed, sent.1, sent.2⟩

end Fetch

end Dalston.Gateway.AudioUrl
