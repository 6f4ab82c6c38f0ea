import SpnegoProxy.Impl.Go.Message
import SpnegoProxy.Spec.Decimal

/-!
# Content-Length lines, and response heads as a client reads them
-/

namespace SP.Spec

open SP.Go

/-- Every member of the lists in `lines` is a numeral of `n`; empty members
do not count. -/
def AllDenote (lines : List Str) (n : Nat) : Prop :=
  ∀ line ∈ lines, ∀ part ∈ splitComma line, trimSpace part ≠ [] → Denotes (trimSpace part) n

/-- Ways to write the same list of lengths in other lines. -/
inductive Regroup : List Str → List Str → Prop where
  | perm {l l'} : l.Perm l' → Regroup l l'
  | join {x y l} : Regroup (x :: y :: l) ((x ++ str "," ++ y) :: l)
  | dup {x l} : Regroup (x :: l) (x :: x :: l)
  | space {x y l} : 0x2C ∉ x → 0x2C ∉ y → trimSpace x = trimSpace y → Regroup (x :: l) (y :: l)
  | zeros {x n k l} : Denotes x n → Regroup (x :: l) ((List.replicate k 0x30 ++ x) :: l)

/-- The parts of a string between CRLFs. -/
def splitCRLF : Str → List Str
  | 0x0D :: 0x0A :: s => [] :: splitCRLF s
  | b :: s =>
    match splitCRLF s with
    | l :: ls => (b :: l) :: ls
    | [] => [[b]]
  | [] => [[]]

/-- A response head, read. -/
structure Head where
  statusLine : Str
  fields : List (Str × Str)
  /-- What follows the empty line. -/
  rest : Str
  deriving DecidableEq

/-- A field line, cut at its first colon. -/
def parseField (line : Str) : Option (Str × Str) :=
  (cutFirst 0x3A line).map fun p => (trimBlank p.1, trimBlank p.2)

/-- A status line, and field lines up to the first empty line. -/
def parseHead (bs : Str) : Option Head :=
  match splitCRLF bs with
  | statusLine :: lines =>
    match lines.dropWhile (· ≠ []) with
    | _ :: rest =>
      ((lines.takeWhile (· ≠ [])).mapM parseField).map fun fields => ⟨statusLine, fields, crlf.intercalate rest⟩
    | [] => none
  | [] => none

/-- The values of a field, in order. -/
def Head.values (h : Head) (name : Str) : List Str := (h.fields.filter (·.1 = name)).map Prod.snd

end SP.Spec
