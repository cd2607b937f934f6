import SentinelCore.Py.Json

/-!
# `urllib.parse.urlparse`

The parts of a URL as `urlparse` of Python 3.11 finds them. White space before the URL and line
breaks and tabs anywhere are dropped. A `ValueError` is raised for unbalanced or wrongly used
brackets in the network location, and for one that gets a delimiter by Unicode normalization.
-/

namespace Py

structure ParseResult where
  scheme : PyStr
  netloc : PyStr
  path : PyStr
  params : PyStr
  query : PyStr
  fragment : PyStr
  deriving DecidableEq

/-- `+`, `-`, `.`, digits and ASCII letters. -/
def isSchemeChar (c : CodePoint) : Bool :=
  isAsciiAlnum c || c = chr '+' || c = chr '-' || c = chr '.'

def asciiLower (c : CodePoint) : CodePoint := if isAsciiUpper c then point (c.val + 32) else c

/-- The schemes that have parameters. -/
def usesParams : List PyStr :=
  [[], lit "ftp", lit "hdl", lit "prospero", lit "http", lit "imap", lit "https", lit "shttp",
    lit "rtsp", lit "rtsps", lit "rtspu", lit "sip", lit "sips", lit "mms", lit "sftp", lit "tel"]

/-- The text up to a character and the text after it; all of it and nothing if it does not occur. -/
def cutAt (s : PyStr) (c : CodePoint) : PyStr × PyStr := (partitionChar? s c).getD (s, [])

/-- The URL without what `urlsplit` strips. -/
def cleanUrl (url : PyStr) : PyStr :=
  (url.dropWhile fun c => c.val ≤ 0x20).filter fun c => c ≠ chr '\t' && c ≠ chr '\r' && c ≠ chr '\n'

/-- The scheme in lower case and the rest. -/
def splitScheme (url : PyStr) : PyStr × PyStr :=
  match partitionChar? url (chr ':') with
  | some (scheme, rest) =>
    if scheme.head?.any (fun c => isAsciiLower c || isAsciiUpper c) && scheme.all isSchemeChar then
      (scheme.map asciiLower, rest)
    else ([], url)
  | none => ([], url)

/-- Where a network location ends. -/
def isNetlocEnd (c : CodePoint) : Bool := c = chr '/' || c = chr '?' || c = chr '#'

/-- The network location, if there is one, and the rest. -/
def splitNetloc (url : PyStr) : PyStr × PyStr :=
  if startsWith url (lit "//") then
    ((url.drop 2).takeWhile fun c => !isNetlocEnd c, (url.drop 2).dropWhile fun c => !isNetlocEnd c)
  else ([], url)

/-- `re.match(r"\Av[a-fA-F0-9]+\..+\Z", host)`. -/
def isIpvFuture (host : PyStr) : Bool :=
  match partitionChar? (host.drop 1) (chr '.') with
  | some (version, address) => version ≠ [] && version.all isHexDigit && address ≠ []
  | none => false

/-- Brackets are balanced and hold an IPv6 or a future address. -/
def bracketsValid (rt : Runtime) (netloc : PyStr) : Bool :=
  if netloc.contains (chr '[') && netloc.contains (chr ']') then
    let host := (cutAt (cutAt netloc (chr '[')).2 (chr ']')).1
    if startsWith host (lit "v") then isIpvFuture host else rt.isIpv6 host
  else netloc.contains (chr '[') == netloc.contains (chr ']')

/-- Normalization brings no delimiter into the network location. -/
def netlocValid (rt : Runtime) (netloc : PyStr) : Bool :=
  let bare := netloc.filter fun c => !(lit "@:#?").contains c
  isAscii netloc || rt.nfkc bare = bare || !(rt.nfkc bare).any fun c => (lit "/?#@:").contains c

/-- The parameters after the first `;` of the last path segment. -/
def splitParams (path : PyStr) : PyStr × PyStr :=
  let last := (path.reverse.takeWhile (· ≠ chr '/')).reverse
  match partitionChar? last (chr ';') with
  | some (segment, params) => (path.take (path.length - last.length) ++ segment, params)
  | none => (path, [])

/-- `urlparse(url)`. -/
def urlparse (rt : Runtime) (url : PyStr) : Except PyExc ParseResult :=
  let (scheme, rest) := splitScheme (cleanUrl url)
  let (netloc, rest) := splitNetloc rest
  let (rest, fragment) := cutAt rest (chr '#')
  let (rest, query) := cutAt rest (chr '?')
  let (path, params) := if usesParams.contains scheme then splitParams rest else (rest, [])
  if bracketsValid rt netloc && netlocValid rt netloc then
    .ok {
      scheme := scheme
      netloc := netloc
      path := path
      params := params
      query := query
      fragment := fragment }
  else .error (.std .valueError (.urlparse url))

/-- `[part for part in path.split("/") if part]`. -/
def pathParts (path : PyStr) : List PyStr := (path.splitOn (chr '/')).filter (· ≠ [])

/-! ## The network location -/

/-- `text.rpartition(c)` when `c` occurs: the text before its last occurrence and the text after. -/
def rpartitionChar? (s : PyStr) (c : CodePoint) : Option (PyStr × PyStr) :=
  (partitionChar? s.reverse c).map fun (after, before) => (before.reverse, after.reverse)

/-- `_userinfo`: the user and the password. -/
def ParseResult.userinfo (parsed : ParseResult) : Option PyStr × Option PyStr :=
  match rpartitionChar? parsed.netloc (chr '@') with
  | none => (none, none)
  | some (userinfo, _) =>
    match partitionChar? userinfo (chr ':') with
    | none => (some userinfo, none)
    | some (username, password) => (some username, some password)

/-- `_hostinfo`: the host as it is written and the text of the port. -/
def ParseResult.hostinfo (parsed : ParseResult) : PyStr × Option PyStr :=
  let hostinfo := ((rpartitionChar? parsed.netloc (chr '@')).map Prod.snd).getD parsed.netloc
  let (hostname, port) :=
    match partitionChar? hostinfo (chr '[') with
    | some (_, bracketed) =>
      let (hostname, rest) := cutAt bracketed (chr ']')
      (hostname, (cutAt rest (chr ':')).2)
    | none => cutAt hostinfo (chr ':')
  (hostname, if port = [] then none else some port)

/-- `parsed.hostname`, with `str.lower` as a parameter; a zone keeps its case. -/
def ParseResult.hostname (lower : PyStr → PyStr) (parsed : ParseResult) : Option PyStr :=
  let hostname := parsed.hostinfo.1
  if hostname = [] then none
  else
    match partitionChar? hostname (chr '%') with
    | none => some (lower hostname)
    | some (host, zone) => some (lower host ++ chr '%' :: zone)

/-- `parsed.port`. -/
def ParseResult.port (rt : Runtime) (parsed : ParseResult) : Except PyExc (Option ℕ) :=
  match parsed.hostinfo.2 with
  | none => .ok none
  | some port =>
    if ¬port.all isAsciiDigit then
      .error (.raised .valueError
        (lit "Port could not be cast to integer value as " ++ rt.repr (.str port)))
    else if Json.intDigitsLimit < port.length then .error (.std .valueError .strOfInt)
    else if 65535 < digitsValue port then
      .error (.raised .valueError (lit "Port out of range 0-65535"))
    else .ok (some (digitsValue port))

end Py
