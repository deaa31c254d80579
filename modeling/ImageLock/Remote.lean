/-
Fetching documents from addresses.
-/
import ImageLock.Access.Basic

namespace ImageLock

structure Response where
  status : Nat
  body : ByteArray

namespace Response

def reasons : List (Nat × String) :=
  [(100, "Continue"), (101, "Switching Protocols"), (102, "Processing"),
    (200, "OK"), (201, "Created"), (202, "Accepted"), (203, "Non Authoritative Information"),
    (204, "No Content"), (205, "Reset Content"), (206, "Partial Content"), (207, "Multi-Status"),
    (208, "Already Reported"), (226, "IM Used"),
    (300, "Multiple Choices"), (301, "Moved Permanently"), (302, "Found"), (303, "See Other"),
    (304, "Not Modified"), (305, "Use Proxy"), (307, "Temporary Redirect"),
    (308, "Permanent Redirect"),
    (400, "Bad Request"), (401, "Unauthorized"), (402, "Payment Required"), (403, "Forbidden"),
    (404, "Not Found"), (405, "Method Not Allowed"), (406, "Not Acceptable"),
    (407, "Proxy Authentication Required"), (408, "Request Timeout"), (409, "Conflict"),
    (410, "Gone"), (411, "Length Required"), (412, "Precondition Failed"),
    (413, "Payload Too Large"), (414, "URI Too Long"), (415, "Unsupported Media Type"),
    (416, "Range Not Satisfiable"), (417, "Expectation Failed"), (418, "I'm a teapot"),
    (421, "Misdirected Request"), (422, "Unprocessable Entity"), (423, "Locked"),
    (424, "Failed Dependency"), (425, "Too Early"), (426, "Upgrade Required"),
    (428, "Precondition Required"), (429, "Too Many Requests"),
    (431, "Request Header Fields Too Large"), (451, "Unavailable For Legal Reasons"),
    (500, "Internal Server Error"), (501, "Not Implemented"), (502, "Bad Gateway"),
    (503, "Service Unavailable"), (504, "Gateway Timeout"), (505, "HTTP Version Not Supported"),
    (506, "Variant Also Negotiates"), (507, "Insufficient Storage"), (508, "Loop Detected"),
    (510, "Not Extended"), (511, "Network Authentication Required")]

def isSuccess (r : Response) : Bool := 200 ≤ r.status && r.status < 300

/-- How a message calls the status. -/
def statusText (r : Response) : String :=
  "HTTP " ++ Number.natText r.status ++ " " ++
    (reasons.lookup r.status).getD "<unknown status code>"

end Response

/-- Fetches an address, or tells why that is not possible. -/
abbrev Transport := String → Reply String Response

namespace Transport

/-- Characters that an address can hold in its path as they are. -/
def isPathChar (c : Char) : Bool :=
  0x21 ≤ c.toNat && c.toNat ≤ 0x7E && !("\"<>\x60\x7b\x7d".toList.contains c)

def escapedByte (b : UInt8) : List Char :=
  let digit (n : Nat) : Char := if n < 10 then Char.ofNat (0x30 + n) else Char.ofNat (0x37 + n)
  ['%', digit (b.toNat / 16), digit (b.toNat % 16)]

def escapedPath (path : List Char) : List Char :=
  path.flatMap fun c =>
    if isPathChar c then [c] else (String.ofList [c]).toUTF8.toList.flatMap escapedByte

/-- An address in its normal form: a scheme, a host, and a path. -/
def normal? (address : String) : Option String := do
  let (scheme, rest) ← Text.cutAtText "://".toList (Text.trimChars address.toList)
  let host := rest.takeWhile fun c => c != '/' && c != '?' && c != '#'
  if (scheme != "http".toList && scheme != "https".toList) || host.isEmpty ||
      host.any (fun c => !isPathChar c) then none
  else
    let path := rest.drop host.length
    let path := if path.head? == some '/' then path else '/' :: path
    return String.ofList (scheme ++ "://".toList ++ host ++ escapedPath path)

/-- The transport of a place without a network. -/
def unreachable : Transport := fun address =>
  match normal? address with
  | some normal => (.error ("error sending request for url (" ++ normal ++ ")"), [])
  | none => (.error "builder error", [])

end Transport
end ImageLock
