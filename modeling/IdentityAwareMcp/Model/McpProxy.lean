import IdentityAwareMcp.Model.Redact
import IdentityAwareMcp.Model.World
import IdentityAwareMcp.Url.Dict
import IdentityAwareMcp.Url.Form

namespace IdentityAwareMcp

open Url

-- What install_proxy_endpoint is given: a tenant (an id or a domain) and an application id URI.
structure McpProxy where
  tenantId : Text
  tenant : ∀ c ∈ tenantId, c ≠ '?' ∧ c ≠ '#'
  identifierUri : Text
  uri : ∀ c ∈ identifierUri, Redact.isSpace c = false

namespace McpProxy

instance : LawfulBEq Text := inferInstance

def reservedScopes : List Text := ["offline_access".toList]

-- str.split and str.join of a blank.
def split (s : Text) : List Text := (s.splitOnP Redact.isSpace).filter (· ≠ [])

structure Post where
  url : Text
  data : Text
  accept : Text
deriving DecidableEq

structure Upstream where
  statusCode : Nat
  contentType : Option Text
  content : List UInt8

structure Response where
  content : List UInt8
  statusCode : Nat
  mediaType : Text

variable (p : McpProxy)

def apiScope : Text := p.identifierUri ++ "/user_impersonation".toList

def upstreamToken : Text := "https://login.microsoftonline.com/".toList ++ p.tenantId ++ "/oauth2/v2.0/token".toList

-- The form of a request is what the framework's form parser makes of its body.
def tokenPost (form : List UInt8 → List Item) (body : List UInt8) : Post :=
  let params : Dict Text Text := .ofItems (form body)
  ⟨p.upstreamToken,urlencode (params.pop "resource".toList).items,"application/json".toList⟩

def token (form : List UInt8 → List Item) (post : Post → Except Exc Upstream) (body : List UInt8) : Except Exc Response :=
  (post (p.tokenPost form body)).map (fun upstream =>
    ⟨upstream.content,upstream.statusCode,upstream.contentType.getD "application/json".toList⟩)

end McpProxy

end IdentityAwareMcp
