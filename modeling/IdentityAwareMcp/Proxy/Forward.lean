import IdentityAwareMcp.Model.McpProxy

namespace IdentityAwareMcp

open Url

section Words

variable {parts : List Text} {t : Text} {c : Char}

end Words

section Scopes

variable {p : McpProxy}

def neededScopes (p : McpProxy) : List Text := p.apiScope :: McpProxy.reservedScopes

def tokens (scope : Option Text) : List Text := McpProxy.split (scope.getD [])

def missing (p : McpProxy) (scope : Option Text) : List Text := (neededScopes p).filter (· ∉ tokens scope)

end Scopes

section Locations

variable {p : McpProxy} {safe t : Text} {c : Char}

end Locations

section Forwarding

variable {p : McpProxy}

end Forwarding

section Samples

end Samples

end IdentityAwareMcp
