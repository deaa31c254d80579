/-
Where the releases of extensions are looked up.
-/
import ImageLock.Extensions.Release
import ImageLock.Remote
import ImageLock.Text.Lowercase
import ImageLock.Text.Utf8

namespace ImageLock

inductive IndexError where
  | cancelled
  | unavailable (url reason : String)
deriving DecidableEq, Repr

/-- Answers which releases an extension has. -/
abbrev ExtensionIndex := (isCancelled : Bool) → String → Reply IndexError (List Release)

namespace ExtensionIndex

/-- Listed releases; an extension that is not listed has none. -/
def ofList (releases : List (String × List Release)) : ExtensionIndex :=
  fun isCancelled name =>
    if isCancelled then (.error .cancelled, [])
    else (.ok ((releases.lookup name).getD []), [.query name])

def defaultAddress : String := "https://pecl.php.net/rest/r"

def releasesUrl (address name : String) : String :=
  String.ofList (Text.dropEndWhile (· == '/') address.toList) ++ "/" ++ Text.lowercase name ++
    "/allreleases.xml"

/-- What a response says; an unknown extension has no releases. -/
def ofResponse (url : String) (response : Response) : Except IndexError (List Release) :=
  if response.status = 404 then .ok []
  else if response.isSuccess then .ok (Release.parseAll (Text.ofBytesLenient response.body))
  else .error (.unavailable url response.statusText)

/-- The index behind an address. -/
def remote (transport : Transport) (address : String) : ExtensionIndex :=
  fun isCancelled name =>
    if isCancelled then (.error .cancelled, [])
    else
      let url := releasesUrl address name
      let (result, events) := transport url
      match result with
      | .ok response => (ofResponse url response, events)
      | .error reason => (.error (.unavailable url reason), events)

end ExtensionIndex
end ImageLock
