/-
Reading one JSON value from a list of tokens. The reader keeps what is open around the value and
takes one token at a time, so it stops at the first fault from the left.
-/
import Slowdown.Json.Basic
import Slowdown.Json.Number
import Slowdown.Json.Token

namespace Slowdown

namespace Json

/-- How closely a value is looked at: read into a tree, with at most so many arrays and objects
inside each other, or skipped. -/
inductive Mode where
  | read (room : Nat)
  | skipped
  deriving DecidableEq

namespace Mode

/-- The fault that a lexeme has in a mode. -/
def fault (mode : Mode) (read skipped : Fault) : Fault :=
  match mode with
  | .read _ => read
  | .skipped => skipped

/-- Whether one more array or object can be opened inside so many. -/
def allows (mode : Mode) (depth : Nat) : Bool :=
  match mode with
  | .read room => depth < room
  | .skipped => true

end Mode

/-! ## States -/

/-- An open array or object around the value being read, with what it holds so far, the newest
first. -/
inductive Frame where
  | array (items : List Json)
  | object (members : List (String × Json)) (name : String)

/-- What has to come next. -/
inductive State where
  | value (outer : List Frame)
  /-- A first item, or the end of the array. -/
  | firstItem (outer : List Frame)
  /-- A first member, or the end of the object. -/
  | firstMember (outer : List Frame)
  | name (members : List (String × Json)) (outer : List Frame)
  | colon (members : List (String × Json)) (name : String) (outer : List Frame)
  /-- A comma or the end of the array. -/
  | afterItem (items : List Json) (outer : List Frame)
  /-- A comma or the end of the object. -/
  | afterMember (members : List (String × Json)) (outer : List Frame)

/-- The state, or the whole value, after a value has been completed. -/
def completed (v : Json) : List Frame → State ⊕ Json
  | [] => .inr v
  | .array items :: outer => .inl (.afterItem (v :: items) outer)
  | .object members name :: outer => .inl (.afterMember ((name, v) :: members) outer)

/-! ## Steps -/

/-- A token where a value has to begin. -/
def valueStep (mode : Mode) (outer : List Frame) : Token → Except Fault (State ⊕ Json)
  | .beginArray =>
    if mode.allows outer.length then .ok (.inl (.firstItem outer)) else .error .malformed
  | .beginObject =>
    if mode.allows outer.length then .ok (.inl (.firstMember outer)) else .error .malformed
  | .null => .ok (completed .null outer)
  | .bool b => .ok (completed (.bool b) outer)
  | .number n =>
    if mode = .skipped ∨ (Number.ofNumeral n).isFinite then .ok (completed (.number n) outer)
    else .error .malformed
  | .string (some s) => .ok (completed (.string s) outer)
  | .string none =>
    if mode = .skipped then .ok (completed (.string "") outer) else .error .malformed
  | .brokenString read skipped => .error (mode.fault read skipped)
  | .broken read skipped => .error (mode.fault read skipped)
  | _ => .error .malformed

/-- A token where the name of a member has to stand. -/
def nameStep (mode : Mode) (members : List (String × Json)) (outer : List Frame) :
    Token → Except Fault (State ⊕ Json)
  | .string (some s) => .ok (.inl (.colon members s outer))
  | .string none =>
    if mode = .skipped then .ok (.inl (.colon members "" outer)) else .error .malformed
  | .brokenString read skipped => .error (mode.fault read skipped)
  | _ => .error .malformed

/-- What a token makes of a state: the next one, the whole value, or a fault. -/
def step (mode : Mode) (state : State) (token : Token) : Except Fault (State ⊕ Json) :=
  match state with
  | .value outer => valueStep mode outer token
  | .firstItem outer =>
    if token = .endArray then .ok (completed (.array []) outer)
    else valueStep mode (.array [] :: outer) token
  | .firstMember outer =>
    if token = .endObject then .ok (completed (.object []) outer)
    else nameStep mode [] outer token
  | .name members outer => nameStep mode members outer token
  | .colon members name outer =>
    if token = .colon then .ok (.inl (.value (.object members name :: outer)))
    else .error .malformed
  | .afterItem items outer =>
    if token = .comma then .ok (.inl (.value (.array items :: outer)))
    else if token = .endArray then .ok (completed (.array items.reverse) outer)
    else .error .malformed
  | .afterMember members outer =>
    if token = .comma then .ok (.inl (.name members outer))
    else if token = .endObject then .ok (completed (.object members.reverse) outer)
    else .error .malformed

/-- Takes tokens until the value is complete; gives it and the tokens after it. -/
def run (mode : Mode) (state : State) : List Token → Except Fault (Json × List Token)
  | [] => .error .cutOff
  | token :: rest =>
    match step mode state token with
    | .error fault => .error fault
    | .ok (.inl next) => run mode next rest
    | .ok (.inr v) => .ok (v, rest)

theorem run_length_lt {mode : Mode} {state : State} {ts rest : List Token} {v : Json}
    (h : run mode state ts = .ok (v, rest)) : rest.length < ts.length := by
  induction ts generalizing state with
  | nil => simp [run] at h
  | cons token ts ih =>
    unfold run at h
    split at h
    · cases h
    · exact Nat.lt_succ_of_lt (ih h)
    · cases h; simp

/-- The value at the front of some tokens. -/
def value (mode : Mode) (ts : List Token) : Except Fault (Json × List Token) :=
  run mode (.value []) ts

/-- How many arrays and objects can be open inside each other. -/
def maxDepth : Nat := 127

/-- The tree of a text that holds one JSON value and nothing else. -/
def ofText (cs : List Char) : Except Fault Json :=
  match value (.read maxDepth) (tokens cs) with
  | .error fault => .error fault
  | .ok (v, []) => .ok v
  | .ok (_, _ :: _) => .error .malformed

end Json

end Slowdown
