import SpnegoProxy.Impl.Errors
import SpnegoProxy.Impl.Go.Time

/-!
# The password login: `auth_gokrb5.go`

`Gokrb5TokenProvider` with the goroutine that repeats the warnings. Every
method runs under the provider's mutex from start to end, so a call of
`GetToken`, what the goroutine does on a tick and a call of `Close` are one
step each. A run-time panic ends a step with a `Fault`.

What the file system, the clock and the Kerberos library answer is given
with each step. A password login is a call of `ASExchange`: `acquireCredential`
makes no other, and the client it returns holds no password.
-/

namespace SP.Impl

open SP.Go

/-! ## Passwords -/

/-- The password file, as one read finds it. -/
inductive PasswordFile where
  | openFailed (err : String)
  | statFailed (err : String)
  /-- The permission bits and what reading it gives. -/
  | opened (mode : Nat) (content : Except String Str)
  deriving DecidableEq

/-- `bytes.TrimRight(s, cutset)`, for a cutset of ASCII characters. -/
def trimRight (s cutset : Str) : Str := (s.reverse.dropWhile cutset.contains).reverse

def maxPasswordFileSize : Nat := 4096

/-- `fmt`'s `%04o`. -/
def octal4 (n : Nat) : String :=
  let digits := Nat.toDigits 8 n
  String.ofList (List.replicate (4 - digits.length) '0' ++ digits)

/-- `getPassword` for a path. -/
def getPassword (path : String) : PasswordFile → Except String Str
  | .openFailed err => .error ("failed to open password file: " ++ err)
  | .statFailed err => .error ("failed to stat password file: " ++ err)
  | .opened mode content =>
    if mode &&& 0o77 ≠ 0 then
      .error ("password file " ++ path ++ " has insecure permissions " ++ octal4 mode ++
        "; must not be accessible by group or others (e.g. 0600)")
    else
      match content with
      | .error err => .error ("failed to read password file: " ++ err)
      | .ok password => .ok (trimRight (password.take maxPasswordFileSize) (str "\r\n"))

/-! ## The provider -/

/-- `sha256.Size`. -/
def sha256Size : Nat := 32

/-- `messages.EncKDCRepPart`, by the times that bound the ticket. -/
structure EncKDCRepPart where
  authTime : Int
  endTime : Int
  deriving DecidableEq

/-- A `*client.Client` that holds a ticket cache, by the ticket in it. -/
structure TicketClient where
  tgt : EncKDCRepPart
  deriving DecidableEq

structure Gokrb5TokenProvider where
  /-- The empty path stands for the terminal. -/
  passwordFile : String
  ticketClient : Option TicketClient := none
  ticketRefreshAt : Int := zeroTime
  stdinPassword : Str := []
  closed : Bool := false
  passwordRejected : Bool := false
  fingerprintKey : Str
  rejectedFingerprint : Str := List.replicate sha256Size 0
  /-- Whether the ticker is there, not `nil`. -/
  rejectWarnTicker : Bool := false
  /-- The stop channel, by its number in `Krb.stops`. -/
  rejectWarnStop : Option Nat := none
  deriving DecidableEq

/-- The provider `NewGokrb5TokenProvider` returns, with the random key and
the password it has read. -/
def newGokrb5TokenProvider (passwordFile : String) (key passwd : Str) : Gokrb5TokenProvider where
  passwordFile := passwordFile
  fingerprintKey := key
  stdinPassword := if passwordFile = "" then passwd else []

/-- `readPassword`. -/
def Gokrb5TokenProvider.readPassword (p : Gokrb5TokenProvider) (file : PasswordFile) :
    Except String Str :=
  if p.passwordFile = "" then .ok p.stdinPassword else getPassword p.passwordFile file

/-- `passwordSource`. -/
def Gokrb5TokenProvider.passwordSource (p : Gokrb5TokenProvider) : String :=
  if p.passwordFile = "" then "terminal input at start-up" else "password file"

/-- The cached client may still be used at `now`. -/
def Gokrb5TokenProvider.Fresh (p : Gokrb5TokenProvider) (now : Int) : Prop :=
  p.ticketClient.isSome ∧ now < p.ticketRefreshAt

instance (p : Gokrb5TokenProvider) (now : Int) : Decidable (p.Fresh now) :=
  inferInstanceAs (Decidable (_ ∧ _))

/-- `isPasswordRejection`, of the error's text. -/
def isPasswordRejection (err : String) : Bool := contains (str err) (str "KDC_ERR_PREAUTH_FAILED")

/-- `tgtRefreshDeadline`; `now` is the clock's time if it is read. -/
def tgtRefreshDeadline (now : Int) (part : EncKDCRepPart) : Int :=
  let lifetime := timeSub part.endTime part.authTime
  let lifetime :=
    if part.authTime = zeroTime ∨ lifetime ≤ 0 then timeSub part.endTime now else lifetime
  part.endTime + (negDuration lifetime).tdiv 6

/-- `&CredentialError{authError{msg: msg}}`. -/
def credentialError (msg : String) : GoError := ⟨[.credential msg], rfl⟩

/-- A `*CredentialError` with a cause. -/
def credentialErrorOf (msg cause : String) : GoError := ⟨[.credential msg, .other cause], rfl⟩

/-- A `*NegotiationError` with a cause. -/
def negotiationErrorOf (msg cause : String) : GoError := ⟨[.negotiation msg, .other cause], rfl⟩

/-! ## Base64 -/

/-- `base64.StdEncoding`'s character for six bits. -/
def base64Char (n : Nat) : UInt8 :=
  (str "ABCDEFGHIJKLMNOPQRSTUVWXYZabcdefghijklmnopqrstuvwxyz0123456789+/").getD n 0

/-- `base64.StdEncoding.EncodeToString`. -/
def base64Encode : Str → Str
  | [] => []
  | [a] => [base64Char (a.toNat / 4), base64Char (a.toNat % 4 * 16), 0x3D, 0x3D]
  | [a, b] =>
    [base64Char (a.toNat / 4), base64Char (a.toNat % 4 * 16 + b.toNat / 16), base64Char (b.toNat % 16 * 4), 0x3D]
  | a :: b :: c :: s =>
    base64Char (a.toNat / 4) :: base64Char (a.toNat % 4 * 16 + b.toNat / 16) ::
      base64Char (b.toNat % 16 * 4 + c.toNat / 64) :: base64Char (c.toNat % 64) :: base64Encode s

/-! ## The provider at work -/

/-- A run-time panic. -/
inductive Fault where
  /-- `Stop` on a `nil` ticker. -/
  | nilTicker
  /-- `close` of a `nil` channel. -/
  | nilStop
  /-- `close` of a closed channel. -/
  | closedStop
  deriving DecidableEq

/-- What can be seen of the provider. -/
inductive KrbEvent where
  /-- A password was read, for the lockout check or for a login. -/
  | read (r : Except String Str)
  /-- A login was sent, and what `ASExchange` returned: the provider as it
  stood, the time and the password. -/
  | login (p : Gokrb5TokenProvider) (now : Int) (passwd : Str) (rep : Except String EncKDCRepPart)
  /-- `GetToken` returned. -/
  | returned (r : Except GoError Str)
  deriving DecidableEq

/-- A goroutine that repeats the warnings. -/
structure Warner where
  stop : Nat
  returned : Bool := false
  deriving DecidableEq

structure Krb where
  p : Gokrb5TokenProvider
  clock : Int := 0
  /-- The stop channels made so far, and whether each is closed. -/
  stops : List Bool := []
  warners : List Warner := []
  events : List KrbEvent := []
  deriving DecidableEq

/-- A program on the provider that may panic. -/
abbrev KrbM := StateT Krb (Except Fault)

def Krb.emit (s : Krb) (e : KrbEvent) : Krb := { s with events := s.events ++ [e] }

/-- What the file system, the clock and the Kerberos library answer in one
call of `GetToken`. -/
structure Call where
  /-- The password file when the lockout check reads it. -/
  check : PasswordFile
  /-- The password file when the login reads it. -/
  login : PasswordFile
  /-- The time when the cached ticket is looked at. -/
  now : Int
  /-- The error of `NewASReqForTGT`. -/
  asReq : Option String := none
  asExchange : Except String EncKDCRepPart
  /-- The error of `Ticket.Marshal`. -/
  marshalTicket : Option String := none
  /-- The error of `NewFromCCache`. -/
  newFromCCache : Option String := none
  /-- The time when the deadline is computed. -/
  later : Int
  /-- The error of `InitSecContext`. -/
  initSecContext : Option String := none
  marshalToken : Except String Str
  deriving DecidableEq

variable (mac : Str → Str → Str)

/-- `passwordFingerprint`; `mac` is HMAC-SHA256. -/
def Gokrb5TokenProvider.passwordFingerprint (p : Gokrb5TokenProvider) (passwd : Str) : Str :=
  mac p.fingerprintKey passwd

/-- `rejectPassword`. A ticker that is there is reset, which nothing here
depends on. -/
def rejectPassword (fingerprint : Str) : KrbM Unit := do
  modify fun s => { s with p := { s.p with passwordRejected := true, rejectedFingerprint := fingerprint } }
  if (← get).p.rejectWarnTicker then return
  modify fun s =>
    { s with
      p := { s.p with rejectWarnTicker := true, rejectWarnStop := some s.stops.length }
      stops := s.stops ++ [false]
      warners := s.warners ++ [{ stop := s.stops.length }] }

/-- `checkPasswordRejected`. -/
def checkPasswordRejected (file : PasswordFile) : KrbM (Option GoError) := do
  let p := (← get).p
  if !p.passwordRejected then return none
  let r := p.readPassword file
  modify (·.emit (.read r))
  match r with
  | .error _ =>
    return some (credentialError
      "KDC rejected the configured password and the password cannot be re-read to check for a correction; check password input and file permissions")
  | .ok passwd =>
    if p.passwordFingerprint mac passwd ≠ p.rejectedFingerprint then
      modify fun s => { s with p := { s.p with passwordRejected := false } }
      if !p.rejectWarnTicker then throw .nilTicker
      return none
    return some (credentialError
      ("KDC rejected the configured password; refusing Kerberos logins until the password changes (source: " ++
        p.passwordSource ++ ")"))

/-- `acquireCredential`. -/
def acquireCredential (x : Call) (passwd : Str) : KrbM (Except String (TicketClient × Int)) := do
  if let some err := x.asReq then return .error err
  modify fun s => s.emit (.login s.p s.clock passwd x.asExchange)
  match x.asExchange with
  | .error err => return .error err
  | .ok part =>
    if let some err := x.marshalTicket then return .error err
    if let some err := x.newFromCCache then return .error err
    return .ok (⟨part⟩, tgtRefreshDeadline x.later part)

/-- What `ticketGrantingClient` does without a usable client: the password
login. -/
def replaceTicketClient (x : Call) : KrbM (Except GoError TicketClient) := do
  let p := (← get).p
  let r := p.readPassword x.login
  modify (·.emit (.read r))
  match r with
  | .error _ =>
    return .error (credentialError "failed to get password: check password input and file permissions")
  | .ok passwd =>
    let fingerprint := p.passwordFingerprint mac passwd
    match ← acquireCredential x passwd with
    | .error err =>
      if isPasswordRejection err then rejectPassword fingerprint
      return .error (credentialErrorOf ("could not acquire client credential: " ++ err) err)
    | .ok (client, refreshAt) =>
      modify fun s => { s with p := { s.p with ticketClient := some client, ticketRefreshAt := refreshAt } }
      return .ok client

/-- `ticketGrantingClient`. -/
def ticketGrantingClient (x : Call) : KrbM (Except GoError TicketClient) := do
  let s ← get
  match s.p.ticketClient with
  | some client => if s.clock < s.p.ticketRefreshAt then return .ok client else replaceTicketClient mac x
  | none => replaceTicketClient mac x

/-- `GetToken`. -/
def getToken (x : Call) : KrbM (Except GoError Str) := do
  if (← get).p.closed then return .error (credentialError "token provider is closed")
  if let some err ← checkPasswordRejected mac x.check then return .error err
  match ← ticketGrantingClient mac x with
  | .error err => return .error err
  | .ok _ =>
    if let some err := x.initSecContext then
      return .error (negotiationErrorOf ("could not initialize context: " ++ err) err)
    match x.marshalToken with
    | .error err => return .error (negotiationErrorOf ("could not marshal SPNEGO token: " ++ err) err)
    | .ok b => return .ok (base64Encode b)

/-- What `repeatPasswordRejectionWarnings` does on a tick. -/
def repeatWarning (file : PasswordFile) : KrbM Unit := do
  let p := (← get).p
  if !p.closed && p.passwordRejected then
    let _ ← checkPasswordRejected mac file

/-- `close(p.rejectWarnStop)`. -/
def closeStop : KrbM Unit := do
  let s ← get
  match s.p.rejectWarnStop with
  | none => throw .nilStop
  | some c =>
    if s.stops.getD c false then throw .closedStop
    set { s with stops := s.stops.set c true }

/-- `Close`. -/
def closeProvider : KrbM Unit := do
  modify fun s => { s with p := { s.p with closed := true, ticketClient := none } }
  if (← get).p.rejectWarnTicker then
    closeStop
    modify fun s => { s with p := { s.p with rejectWarnTicker := false } }
  modify fun s =>
    { s with
      p := { s.p with
        stdinPassword := []
        fingerprintKey := List.replicate sha256Size 0
        rejectedFingerprint := List.replicate sha256Size 0 } }

/-! ## Runs -/

inductive KrbAct where
  /-- A call of `GetToken`. -/
  | getToken (x : Call)
  /-- A tick reaches a goroutine, which then finds this password file. A tick
  may come at any time: one sent before the ticker was stopped can still be
  taken after it. -/
  | tick (i : Nat) (file : PasswordFile)
  /-- A goroutine finds its stop channel closed and returns. -/
  | stopped (i : Nat)
  /-- A call of `Close`. -/
  | close
  deriving DecidableEq

/-- The action can be taken: the clock does not go back, and a goroutine acts
only until it has returned. -/
def Krb.canTake (s : Krb) : KrbAct → Bool
  | .getToken x => s.clock ≤ x.now && x.now ≤ x.later
  | .tick i _ => s.warners[i]?.any fun w => !w.returned
  | .stopped i => s.warners[i]?.any fun w => !w.returned && s.stops.getD w.stop false
  | .close => true

/-- What an action does. -/
def KrbAct.program : KrbAct → KrbM Unit
  | .getToken x => do
    modify fun s => { s with clock := x.now }
    let r ← Impl.getToken mac x
    modify fun s => { s.emit (.returned r) with clock := x.later }
  | .tick _ file => repeatWarning mac file
  | .stopped i => modify fun s => { s with warners := s.warners.modify i fun w => { w with returned := true } }
  | .close => closeProvider

end SP.Impl
