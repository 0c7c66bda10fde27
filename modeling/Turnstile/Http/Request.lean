/-
Requests and the identity of their clients.

The identity of a client is the first that is not empty of: the first
entry of `X-Forwarded-For`, the value of `X-Real-IP`, and the address of
the peer without its port. A request about which nothing is known has the
empty identity, so every request belongs to some client.

Both headers are trusted as they come; who may set them is the business
of the proxy in front of the service.
-/
import Turnstile.Http.Address
import Turnstile.Http.Header
import Turnstile.Http.Uri
import Turnstile.Text.Character

namespace Turnstile.Http

/-- A request; its body does not matter here. -/
structure Request where
  method : String
  uri : Uri
  headers : List Header
  peer? : Option Address

-- ===================================================================== identity

/-- The text of the first field of a name, if it is text. -/
def fieldText? (name : String) (headers : List Header) : Option String :=
  (Header.first? name headers).bind textOf?

/-- The first entry of a list with commas, without blanks around it. -/
def firstEntry (list : String) : String :=
  String.ofList (Text.trim (list.toList.takeWhile (· != ',')))

/-- What may identify a client, in order of precedence. -/
def identityCandidates (headers : List Header) (peer? : Option Address) : List String :=
  ((fieldText? "x-forwarded-for" headers).map firstEntry).toList
    ++ ((fieldText? "x-real-ip" headers).map fun value =>
        String.ofList (Text.trim value.toList)).toList
    ++ (peer?.map Address.text).toList

/-- The identity of a client. -/
def clientIdentity (headers : List Header) (peer? : Option Address) : String :=
  ((identityCandidates headers peer?).find? (· != "")).getD ""

/-- The client who sends a request. -/
def Request.client (request : Request) : String :=
  clientIdentity request.headers request.peer?

end Turnstile.Http
