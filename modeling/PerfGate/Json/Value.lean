import PerfGate.Json.Number
import PerfGate.Json.Written
import PerfGate.Text.Utf16

/-!
# Json — values

What a JSON text denotes. Numbers are integers of 64 bits or doubles, and strings are texts: escaped
surrogates have to come in pairs. The members of an object are in the order of their first mention,
each with the value of its last.
-/

namespace PerfGate.Json

/-- A JSON value. -/
inductive Value where
  | null
  | bool (b : Bool)
  | integer (i : Int)
  | real (x : Binary64)
  | string (s : String)
  | array (items : List Value)
  | object (members : List (String × Value))

/-- The members of an object. -/
abbrev Members := List (String × Value)

/-- The members with `name` set to `value`: in its old place, or at the end if it is new. -/
def Members.set (name : String) (value : Value) : Members → Members
  | [] => [(name, value)]
  | (n, v) :: rest => if n = name then (n, value) :: rest else (n, v) :: Members.set name value rest

/-- The members written one after another, a repeated name overwriting its value. -/
def Members.ofList (entries : List (String × Value)) : Members :=
  entries.foldl (fun members (name, value) => Members.set name value members) []

/-- The value of a member. -/
def Members.get? (members : Members) (name : String) : Option Value := members.lookup name

@[simp] theorem Members.get?_nil (name : String) : Members.get? [] name = none := rfl

theorem Members.get?_cons (n : String) (v : Value) (rest : Members) (name : String) :
    Members.get? ((n, v) :: rest) name = if n = name then some v else Members.get? rest name := by
  unfold Members.get?
  by_cases h : n = name
  · subst h
    simp
  · have hne : (name == n) = false := by simpa using Ne.symm h
    simp [List.lookup_cons, hne, h]

/-- Setting a member changes that member and no other. -/
theorem Members.get?_set (name : String) (value : Value) (members : Members) (other : String) :
    Members.get? (Members.set name value members) other =
      if name = other then some value else Members.get? members other := by
  induction members with
  | nil => rw [Members.set, Members.get?_cons]
  | cons member rest ih =>
    obtain ⟨n, v⟩ := member
    unfold Members.set
    by_cases hn : n = name
    · subst hn
      rw [if_pos rfl, Members.get?_cons, Members.get?_cons]
      split <;> rfl
    · rw [if_neg hn, Members.get?_cons, Members.get?_cons, ih]
      by_cases h : n = other
      · subst h
        simp [Ne.symm hn]
      · simp [h]

/-! ## Numbers -/

/-- The value of a number. One too large for a double has none. -/
def numberValue? (n : Numeral) : Option Value :=
  match n.integer? with
  | some i => some (.integer i)
  | none => n.scan?.map .real

/-- The number as a double. -/
def Value.toDouble? : Value → Option Binary64
  | .integer i => some (.ofInt i)
  | .real x => some x
  | _ => none

/-! ## Strings -/

/-- The characters of a string. Escaped surrogates have to come in pairs. -/
def pieceChars? : List Piece → Option (List Char)
  | [] => some []
  | .char c :: rest => (pieceChars? rest).map (c :: ·)
  | .unit u :: rest =>
    if Text.Utf16.isHigh u then
      match rest with
      | .unit v :: rest' =>
        if Text.Utf16.isLow v then (pieceChars? rest').map (Text.Utf16.pair u v :: ·) else none
      | _ => none
    else if Text.Utf16.isLow u then none
    else (pieceChars? rest).map (Char.ofNat u :: ·)

/-- A unit that is no surrogate is a character by itself. -/
theorem pieceChars?_unit {u : Nat} (hhigh : Text.Utf16.isHigh u = false)
    (hlow : Text.Utf16.isLow u = false) (rest : List Piece) :
    pieceChars? (.unit u :: rest) = (pieceChars? rest).map (Char.ofNat u :: ·) := by
  cases rest with
  | nil => simp [pieceChars?, hhigh, hlow]
  | cons p rest => cases p <;> simp [pieceChars?, hhigh, hlow]

/-- The string that pieces spell. -/
def pieceString? (pieces : List Piece) : Option String := (pieceChars? pieces).map String.ofList

/-! ## Values -/

mutual

/-- What a tree denotes. -/
def Written.value? : Written → Option Value
  | .null => some .null
  | .bool b => some (.bool b)
  | .number n => numberValue? n
  | .string pieces => (pieceString? pieces).map .string
  | .array items => (Written.values? items).map .array
  | .object members => (Written.members? members).map fun ms => .object (Members.ofList ms)

/-- What the items of an array denote. -/
def Written.values? : List Written → Option (List Value)
  | [] => some []
  | w :: rest =>
    match w.value?, Written.values? rest with
    | some v, some vs => some (v :: vs)
    | _, _ => none

/-- What the members of an object denote, repeated names included. -/
def Written.members? : List (List Piece × Written) → Option (List (String × Value))
  | [] => some []
  | (name, w) :: rest =>
    match pieceString? name, w.value?, Written.members? rest with
    | some n, some v, some ms => some ((n, v) :: ms)
    | _, _, _ => none

end

/-- The most brackets that may stand around one another. -/
def maxDepth : Nat := 127

/-- The value that a text denotes. -/
def parse? (text : List Char) : Option Value := (Written.read? maxDepth text).bind Written.value?

/-- The members of the object that a text denotes. -/
def parseObject? (text : List Char) : Option Members :=
  match parse? text with
  | some (.object members) => some members
  | _ => none

end PerfGate.Json
