/-
Reading a history file: a JSON document, which may be wrapped as an assignment of a script. Only
the suites are read; whatever else the document holds is skipped.
-/
import Slowdown.Archive
import Slowdown.Text.Blank

namespace Slowdown

namespace Archive

/-- Why a text is not a history file. -/
inductive Fault where
  | json (fault : Json.Fault)
  | mismatch (m : Mismatch)

/-! ## The wrapper -/

/-- The assignment in front of a wrapped document. -/
def assignment : List Char := "window.BENCHMARK_DATA = ".toList

/-- A text without something at its front, if that stands there. -/
def withoutFront (front cs : List Char) : List Char :=
  if front.isPrefixOf cs then cs.drop front.length else cs

/-- A text without its last character, if that is a semicolon. -/
def withoutSemicolon (cs : List Char) : List Char :=
  if cs.getLast? = some ';' then cs.dropLast else cs

/-- The document inside its wrapper: the assignment is taken off before the blanks are, the
semicolon after them. -/
def unwrap (cs : List Char) : List Char :=
  withoutSemicolon (Text.trim (withoutFront assignment cs))

/-! ## The document -/

/-- The fault of a token at a place where another kind of value has to stand. -/
def wrongToken (place : Place) : Json.Token → Fault
  | .beginArray => .mismatch (.wrongType .sequence place)
  | .beginObject => .mismatch (.wrongType .map place)
  | .null => .mismatch (.wrongType .null place)
  | .bool b => .mismatch (.wrongType (.bool b) place)
  | .number n =>
    let value := Json.Number.ofNumeral n
    if value.isFinite then .mismatch (.wrongType (.number value) place) else .json .malformed
  | .string (some s) => .mismatch (.wrongType (.string s) place)
  | .brokenString read _ => .json read
  | .broken read _ => .json read
  | _ => .json .malformed

/-- The suites, which stand one level inside the document. -/
def entries : List Json.Token → Except Fault (List (String × Json) × List Json.Token)
  | [] => .error (.json .cutOff)
  | .beginObject :: rest =>
    match Json.value (.read (Json.maxDepth - 1)) (.beginObject :: rest) with
    | .ok (.object members, rest) => .ok (members, rest)
    | .ok (_, _) => .error (.json .malformed)
    | .error fault => .error (.json fault)
  | token :: _ => .error (wrongToken .entries token)

theorem entries_length_lt {ts rest : List Json.Token} {members : List (String × Json)}
    (h : entries ts = .ok (members, rest)) : rest.length < ts.length := by
  unfold entries at h
  split at h
  · cases h
  · split at h
    · rename_i run
      cases h
      exact Json.run_length_lt run
    · cases h
    · cases h
  · cases h

/-- The name of the member that holds the suites. -/
def entriesName : String := "entries"

mutual

/-- The members of the document from a name on, given the suites read so far. -/
def members (found : Option (List (String × Json))) (ts : List Json.Token) :
    Except Fault (List (String × Json) × List Json.Token) :=
  match ts with
  | [] => .error (.json .cutOff)
  | .string (some name) :: rest =>
    if name = entriesName ∧ found.isSome then .error (.mismatch (.repeated entriesName))
    else
      match rest with
      | [] => .error (.json .cutOff)
      | .colon :: rest =>
        if name = entriesName then
          match h : entries rest with
          | .error fault => .error fault
          | .ok (suites, rest') =>
            have := entries_length_lt h
            moreMembers (some suites) rest'
        else
          match h : Json.value .skipped rest with
          | .error fault => .error (.json fault)
          | .ok (_, rest') =>
            have := Json.run_length_lt h
            moreMembers found rest'
      | _ :: _ => .error (.json .malformed)
  | .brokenString read _ :: _ => .error (.json read)
  | _ :: _ => .error (.json .malformed)
termination_by ts.length

/-- The members of the document after one of them. -/
def moreMembers (found : Option (List (String × Json))) (ts : List Json.Token) :
    Except Fault (List (String × Json) × List Json.Token) :=
  match ts with
  | [] => .error (.json .cutOff)
  | .endObject :: rest => .ok (found.getD [], rest)
  | .comma :: rest => members found rest
  | _ :: _ => .error (.json .malformed)
termination_by ts.length

end

/-- The document: an object with the suites among its members, or a list of nothing else. -/
def document : List Json.Token → Except Fault (List (String × Json) × List Json.Token)
  | [] => .error (.json .cutOff)
  | .beginObject :: .endObject :: rest => .ok ([], rest)
  | .beginObject :: rest => members none rest
  | .beginArray :: .endArray :: rest => .ok ([], rest)
  | .beginArray :: rest =>
    match entries rest with
    | .error fault => .error fault
    | .ok (_, []) => .error (.json .cutOff)
    | .ok (suites, .endArray :: rest) => .ok (suites, rest)
    | .ok (_, _ :: _) => .error (.json .malformed)
  | token :: _ => .error (wrongToken .document token)

/-- The archive in a text. Of suites of equal name the last counts. -/
def parse (text : String) : Except Fault Archive :=
  match document (Json.tokens (unwrap text.toList)) with
  | .error fault => .error fault
  | .ok (suites, []) => .ok ⟨.ofList suites⟩
  | .ok (_, _ :: _) => .error (.json .malformed)

end Archive

end Slowdown
