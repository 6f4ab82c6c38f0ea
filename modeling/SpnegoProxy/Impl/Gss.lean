import SpnegoProxy.Impl.Gokrb5

/-!
# The GSS provider: `gss_darwin.c`, `auth_gss_darwin.go`

The C code over a heap of handles and blocks, and arrays of a fixed size. An
access outside of an array, and a use or a release of what is not allocated,
are faults. A `size_t` is a number below `2 ^ 64`, and differences wrap.

What the GSS framework and `malloc` answer to a call of `GetToken` is the
`Framework`. A name and a credential that could not be made are not set, and
the messages of a status are finitely many. The code does not look at the
result of `gss_display_status`: where that call fails, it reads and releases a
`msg_buf` that was never set, which is a fault too. Each call of `GetToken`
runs under `g.mu` from start to end.
-/

namespace SP.Impl.Gss

open SP.Go

/-! ## Memory -/

/-- Undefined behaviour, or a panic of Go's. -/
inductive CFault where
  | outOfBounds
  | notLive
  /-- A use of `msg_buf` after a `gss_display_status` that failed. -/
  | uninitialised
  /-- `C.GoBytes` with a negative length. -/
  | negativeLength
  deriving DecidableEq

/-- What is to be released. -/
inductive Kind where
  /-- `C.CString`. -/
  | cString
  | name
  | cred
  | context
  /-- The contents of a `gss_buffer_desc`. -/
  | buffer
  /-- `malloc`. -/
  | block
  deriving DecidableEq

/-- The handles made so far are the numbers below `next`. -/
structure Heap where
  next : Nat := 0
  live : List (Nat × Kind) := []

abbrev CM := StateT Heap (Except CFault)

def alloc (k : Kind) : CM Nat := fun h => .ok (h.next, ⟨h.next + 1, (h.next, k) :: h.live⟩)

def access (k : Kind) (p : Nat) : CM Unit := do
  if (p, k) ∈ (← get).live then return () else throw .notLive

def release (k : Kind) (p : Nat) : CM Unit := do
  let h ← get
  if (p, k) ∈ h.live then set { h with live := h.live.erase (p, k) } else throw .notLive

/-- `a - b` of type `size_t`. -/
def sizeSub (a b : Nat) : Nat := (a + (2 ^ 64 - b)) % 2 ^ 64

/-- `buf[i] = b`. -/
def store (buf : Str) (i : Nat) (b : UInt8) : CM Str := do
  if i < buf.length then return buf.set i b else throw .outOfBounds

/-- `memcpy(buf + offset, src, n)`. -/
def memcpy (buf : Str) (offset : Nat) (src : Str) (n : Nat) : CM Str := do
  if offset + n ≤ buf.length ∧ n ≤ src.length then return buf.take offset ++ src.take n ++ buf.drop (offset + n)
  else throw .outOfBounds

/-- The string in an array, up to its end. -/
def readString (buf : Str) : CM Str := do
  if 0 ∈ buf then return buf.takeWhile (· ≠ 0) else throw .outOfBounds

/-- `snprintf(buf, sizeof(buf), ..)`, which makes `text`. -/
def snprintf (buf text : Str) : CM Str := do
  let n := min text.length (sizeSub buf.length 1)
  store (← memcpy buf 0 text n) n 0

/-! ## The framework -/

structure Status where
  major : UInt32
  minor : UInt32

/-- `GSS_ERROR`: a calling error or a routine error. -/
def Status.isError (st : Status) : Bool := st.major &&& 0xFFFF0000 != 0

inductive StatusType where
  /-- `GSS_C_GSS_CODE`. -/
  | gssCode
  /-- `GSS_C_MECH_CODE`. -/
  | mechCode

structure Framework where
  /-- The messages of a code, the first of them apart; none if
  `gss_display_status` fails. -/
  displayStatus : UInt32 → StatusType → Option (Str × List Str)
  importName : Str → Status
  acquireCred : Status
  initSecContext : Status
  /-- Whether `gss_init_sec_context` sets the context. -/
  context : Bool
  /-- What it leaves in the output buffer. -/
  outputToken : Option Str
  /-- Whether there is memory for the token. -/
  malloc : Bool
  /-- What an array holds that is not initialised. -/
  stack : Nat → UInt8

/-- The context that `gss_init_sec_context` sets. -/
def Framework.makeContext (f : Framework) : CM (Option Nat) :=
  if f.context then some <$> alloc .context else pure none

/-- The output buffer that it sets. -/
def Framework.makeOutputToken (f : Framework) : CM (Option (Nat × Str)) :=
  match f.outputToken with
  | some bs => (fun p => some (p, bs)) <$> alloc .buffer
  | none => pure none

/-- `gss_release_buffer`, which does nothing to an empty buffer. -/
def releaseBuffer : Option (Nat × Str) → CM Unit
  | some (p, _) => release .buffer p
  | none => return ()

/-- `gss_delete_sec_context`, unless the context is `GSS_C_NO_CONTEXT`. -/
def deleteSecContext : Option Nat → CM Unit
  | some p => release .context p
  | none => return ()

/-! ## `gss_darwin.c` -/

/-- The separator, where it fits. -/
def appendSeparator (buflen : Nat) (buf : Str) (offset : Nat) : CM (Str × Nat) := do
  if 0 < offset ∧ offset < sizeSub buflen 2 then
    let buf ← store buf offset 0x3B
    let buf ← store buf (offset + 1) 0x20
    return (buf, offset + 2)
  else return (buf, offset)

/-- The body of the loop of `append_status_messages`. -/
def appendMessage (buflen : Nat) (msg buf : Str) (offset : Nat) : CM (Str × Nat) := do
  let p ← alloc .buffer
  let (buf, offset) ← appendSeparator buflen buf offset
  let room := sizeSub (sizeSub buflen offset) 1
  let toCopy := if msg.length < room then msg.length else room
  access .buffer p
  let buf ← memcpy buf offset msg toCopy
  release .buffer p
  return (buf, offset + toCopy)

/-- The loop of `append_status_messages`, with the message that is next and
those after it. -/
def appendMessages (buflen : Nat) (msg : Str) (more : List Str) (buf : Str) (offset : Nat) :
    CM (Str × Nat) := do
  let (buf, offset) ← appendMessage buflen msg buf offset
  match more with
  | [] => return (buf, offset)
  | msg :: more =>
    if offset < sizeSub buflen 1 then appendMessages buflen msg more buf offset
    else return (buf, offset)

def appendStatusMessages (f : Framework) (code : UInt32) (type : StatusType) (buflen : Nat)
    (buf : Str) (offset : Nat) : CM (Str × Nat) :=
  match f.displayStatus code type with
  | some (msg, more) => appendMessages buflen msg more buf offset
  | none => throw .uninitialised

/-- `format_gss_error`, for an array and its `sizeof`. -/
def formatGssError (f : Framework) (st : Status) (buf : Str) : CM Str := do
  let (buf', offset) ← appendStatusMessages f st.major .gssCode buf.length buf 0
  if st.minor ≠ 0 then
    let (buf', offset) ← appendStatusMessages f st.minor .mechCode buf.length buf' offset
    store buf' offset 0
  else store buf' offset 0

/-- `gss_token_result`; `data` points to the bytes. -/
structure TokenResult where
  data : Option (Nat × Str) := none
  length : Nat := 0
  errorCode : Int := 0
  errorMsg : Str := List.replicate 256 0

/-- The result of a call that failed with `st`. -/
def failedResult (f : Framework) (st : Status) : CM TokenResult := do
  let msg ← formatGssError f st (List.replicate 256 0)
  return { errorCode := 1, errorMsg := msg }

/-- The token in memory of the caller's own. -/
def copyToken (f : Framework) (outputToken : Option (Nat × Str)) : CM TokenResult := do
  match outputToken with
  | none => return {}
  | some (p, bs) =>
    if 0 < bs.length then
      if f.malloc then
        let data ← alloc .block
        access .buffer p
        return { data := some (data, bs), length := bs.length }
      else
        let msg ← snprintf (List.replicate 256 0) (str "failed to allocate memory for token")
        return { errorCode := 1, errorMsg := msg }
    else return {}

/-- `acquire_spnego_token` from `gss_init_sec_context` on. -/
def initSecContext (f : Framework) (serverName cred : Nat) : CM TokenResult := do
  access .cred cred
  access .name serverName
  let context ← f.makeContext
  let outputToken ← f.makeOutputToken
  if f.initSecContext.isError then
    let result ← failedResult f f.initSecContext
    release .cred cred
    release .name serverName
    deleteSecContext context
    return result
  else
    release .cred cred
    let result ← copyToken f outputToken
    releaseBuffer outputToken
    release .name serverName
    deleteSecContext context
    return result

/-- `acquire_spnego_token` from the check of the credentials on. -/
def checkCredentials (f : Framework) (serverName : Nat) : CM TokenResult := do
  if f.acquireCred.isError then
    let gssErr ← formatGssError f f.acquireCred ((List.range 230).map f.stack)
    let text ← readString gssErr
    let msg ← snprintf (List.replicate 256 0) (str "credential check: " ++ text)
    release .name serverName
    return { errorCode := 1, errorMsg := msg }
  else
    let cred ← alloc .cred
    initSecContext f serverName cred

def acquireSpnegoToken (f : Framework) (spn : Nat × Str) : CM TokenResult := do
  access .cString spn.1
  let name ← readString spn.2
  let st := f.importName name
  if st.isError then failedResult f st
  else
    let serverName ← alloc .name
    checkCredentials f serverName

/-! ## `auth_gss_darwin.go` -/

/-- The text that bytes make. -/
def goString (s : Str) : String := String.ofList (s.map fun b => Char.ofNat b.toNat)

/-- The hint after an error, with the value of `KRB5CCNAME`. -/
def hint (ccname : Str) : Str :=
  if ccname ≠ [] then
    str " (KRB5CCNAME=" ++ ccname ++ str "; try 'klist' to check credentials or 'kinit' to refresh)"
  else str " (try 'klist' to check credentials or 'kinit' to refresh)"

def gssError (msg ccname : Str) : GoError :=
  credentialError (goString (str "GSS-API error: " ++ msg ++ hint ccname))

def emptyTokenError : GoError := ⟨[.negotiation "GSS-API returned empty token"], rfl⟩

/-- `C.GoBytes(data, C.int(n))`. -/
def goBytes (data : Nat × Str) (n : Nat) : CM Str := do
  access .block data.1
  if 2 ^ 31 ≤ n % 2 ^ 32 then throw .negativeLength
  else if n % 2 ^ 32 ≤ data.2.length then return data.2.take (n % 2 ^ 32)
  else throw .outOfBounds

/-- What `GetToken` makes of the result of `acquire_spnego_token`. -/
def tokenOf (result : TokenResult) (ccname : Str) : CM (Except GoError Str) := do
  if result.errorCode ≠ 0 then
    let msg ← readString result.errorMsg
    return .error (gssError msg ccname)
  else match result.data with
    | none => return .error emptyTokenError
    | some data =>
      if result.length = 0 then return .error emptyTokenError
      else
        let token ← goBytes data result.length
        release .block data.1
        return .ok (base64Encode token)

/-- `GSSTokenProvider.GetToken`, with the value of `KRB5CCNAME`. -/
def getToken (spn : Str) (f : Framework) (ccname : Str) : CM (Except GoError Str) := do
  let cspn ← alloc .cString
  let result ← acquireSpnegoToken f (cspn, spn ++ [0])
  let r ← tokenOf result ccname
  release .cString cspn
  return r

end SP.Impl.Gss
