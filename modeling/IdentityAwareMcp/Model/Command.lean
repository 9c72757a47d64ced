import IdentityAwareMcp.Model.Identity
import IdentityAwareMcp.Utf8.Codec

namespace IdentityAwareMcp

-- Python's `value or default` on an optional string.
def orElse (v : Option String) (d : String) : String :=
  match v with
  | none => d
  | some s => if s = "" then d else s

namespace WorkspaceLayout

def sessionPrefix (userOid sessionId : Option String) : String :=
  orElse userOid "anon" ++ "/" ++ orElse sessionId "nosession"

def conversationPrefix (userOid sessionId conversationId : Option String) : String :=
  sessionPrefix userOid sessionId ++ "/" ++ orElse conversationId "default"

end WorkspaceLayout

namespace Shlex

def safe (c : Char) : Bool := c.isAlphanum || "_@%+=:,./-".toList.contains c

def quote (s : String) : String :=
  if s = "" then "''"
  else if s.toList.all safe then s
  else "'" ++ String.ofList (s.toList.flatMap (fun c => if c = '\'' then "'\"'\"'".toList else [c])) ++ "'"

end Shlex

def buildUserAgent (includeOid : Bool) (correlationId : String) (oid : Option String) : String :=
  if orElse oid "" ≠ "" ∧ includeOid then "mcp/" ++ correlationId ++ ";oid/" ++ orElse oid "" else "mcp/" ++ correlationId

def truncateHint (n : Nat) : Text :=
  ("\n\n[output truncated at " ++ toString n ++ " bytes] Narrow it at the source — " ++
    "`az ... --query <JMESPath> -o tsv` or `| jq '<filter>'`. If you need the " ++
    "full result, redirect to a file (`az ... > /tmp/out.json`) and read it in " ++
    "chunks with jq/grep.").toList

def cap (maxOutputBytes : Nat) (text : Text) : Text × Bool :=
  let raw := Utf8.encode text
  if raw.length ≤ maxOutputBytes then (text,false)
  else (Utf8.decode (raw.take maxOutputBytes),true)

-- The same on a text that may hold surrogates.
def capPoints (maxOutputBytes : Nat) (text : List Utf8.Point) : List Utf8.Point × Bool :=
  let raw := Utf8.encodeReplace text
  if raw.length ≤ maxOutputBytes then (text,false)
  else ((Utf8.decode (raw.take maxOutputBytes)).map .scalar,true)

namespace Worker

def cap (maxOutputBytes : Nat) (raw : List UInt8) : Text × Bool :=
  if raw.length ≤ maxOutputBytes then (Utf8.decode raw,false)
  else (Utf8.decode (raw.take maxOutputBytes),true)

-- What the subprocess left behind: its exit, or the kill after the timeout (printed in whole seconds).
inductive Proc where
  | exited (returncode : Int) (stdout stderr : List UInt8)
  | timedOut (seconds : Nat)

def execCommand (maxOutputBytes : Nat) : Proc → ExecResult
  | .timedOut s => ⟨none,[],("command timed out after " ++ toString s ++ "s and was killed").toList,false⟩
  | .exited returncode stdout stderr =>
    let out := cap maxOutputBytes stdout
    let err := cap maxOutputBytes stderr
    ⟨some returncode,if out.2 || err.2 then out.1 ++ truncateHint maxOutputBytes else out.1,err.1,
      out.2 || err.2⟩

end Worker

end IdentityAwareMcp
