import SpnegoProxy.Impl.Gss

/-!
# Answers of the GSS provider

What a caller of `GetToken` is told, for each way in which the framework may
answer, and how much of the framework's messages an array can show.
-/

namespace SP.Spec.Gss

open SP.Go SP.Impl SP.Impl.Gss

/-- The text with one more message. -/
def glue (shown msg : Str) : Str := if shown = [] then msg else shown ++ str "; " ++ msg

/-- The messages of a code. -/
def displayed (f : Framework) (code : UInt32) (type : StatusType) : List Str :=
  match f.displayStatus code type with
  | some (msg, more) => msg :: more
  | none => []

/-- The messages of a status: of its major code, and of its minor code unless that is zero. -/
def messages (f : Framework) (st : Status) : List Str :=
  displayed f st.major .gssCode ++ if st.minor ≠ 0 then displayed f st.minor .mechCode else []

/-- What an array of `size` bytes shows of a text: the whole text if there is
room for it and for the end of the string, and never anything else. -/
structure Shows (size : Nat) (whole shown : Str) : Prop where
  fits : shown.length < size
  part : shown.Sublist whole
  full : whole.length < size → shown = whole

/-- The framework can display a status. -/
def Displays (f : Framework) (st : Status) : Prop :=
  (f.displayStatus st.major .gssCode).isSome = true ∧
    (st.minor ≠ 0 → (f.displayStatus st.minor .mechCode).isSome = true)

/-- The string that C finds in bytes. -/
def cText (s : Str) : Str := s.takeWhile (· ≠ 0)

/-- What an array of `size` bytes shows of a status. -/
def Describes (f : Framework) (st : Status) (size : Nat) (shown : Str) : Prop :=
  Shows size ((messages f st).foldl glue []) shown

/-- The framework can display the statuses that its calls fail with. -/
def Explains (f : Framework) (spn : Str) : Prop :=
  ∀ st ∈ [f.importName (cText spn), f.acquireCred, f.initSecContext], st.isError = true →
    Displays f st

/-- The framework has made a context. -/
structure HasContext (f : Framework) (spn : Str) : Prop where
  name : (f.importName (cText spn)).isError = false
  cred : f.acquireCred.isError = false
  init : f.initSecContext.isError = false

/-- A failure and its report. -/
inductive Reports (f : Framework) (spn : Str) : Str → Prop where
  | importName {shown : Str} (h : (f.importName (cText spn)).isError = true)
      (hs : Describes f (f.importName (cText spn)) 256 shown) : Reports f spn (cText shown)
  | acquireCred {shown : Str} (hn : (f.importName (cText spn)).isError = false) (h : f.acquireCred.isError = true)
      (hs : Describes f f.acquireCred 230 shown) : Reports f spn (str "credential check: " ++ cText shown)
  | initSecContext {shown : Str} (hn : (f.importName (cText spn)).isError = false)
      (hc : f.acquireCred.isError = false) (h : f.initSecContext.isError = true)
      (hs : Describes f f.initSecContext 256 shown) : Reports f spn (cText shown)
  | memory {bs : Str} (h : HasContext f spn) (ht : f.outputToken = some bs) (hne : bs ≠ []) (hm : f.malloc = false) :
      Reports f spn (str "failed to allocate memory for token")

/-- What `GetToken` returns. -/
inductive Answer (f : Framework) (spn ccname : Str) : Except GoError Str → Prop where
  | error {msg : Str} (h : Reports f spn msg) : Answer f spn ccname (.error (gssError msg ccname))
  | empty (h : HasContext f spn) (ht : f.outputToken.getD [] = []) : Answer f spn ccname (.error emptyTokenError)
  | token {bs : Str} (h : HasContext f spn) (ht : f.outputToken = some bs) (hne : bs ≠ []) (hm : f.malloc = true) :
      Answer f spn ccname (.ok (base64Encode bs))

/-- What a call does not release: the token of a `gss_init_sec_context` that failed. -/
def leftBehind (f : Framework) (spn : Str) : List Kind :=
  if (f.importName (cText spn)).isError = false ∧ f.acquireCred.isError = false ∧ f.initSecContext.isError = true ∧
      f.outputToken.isSome = true then [.buffer] else []

end SP.Spec.Gss
